import WriteBack.Proofs.Refinement

/-!
# WriteBack.Proofs.Preload

What a cold cache shows of a store that is not empty. There is no valid bit: every line of a cold cache holds
the block of the largest tag as zeros, whatever the store holds there. Until another block drives it out, the
cold line hides its block, and a cold line that starts out dirty is written over it (`preloaded_contents_read`).
Everything else that was in the store is read as it is.

The reads are followed on the untimed cache (`Untimed.ReadOnly`). The rule that a clean line equals its block
of the store is about every cycle, so it is followed from cycle to cycle (`Trace.clean_line_backed`).
-/

namespace WriteBack

open Link

/-! ## The cold lines -/

namespace Geometry

variable (g : Geometry)

/-- What a line of a cold cache holds. -/
def coldLine : Cache.Line := ⟨g.layout.tagMask, g.dirtyInit, Block.zeros g.lineBytes⟩

/-- A beat of another block has driven the cold line out. -/
def drivenOut (earlier : List Beat) (line : Nat) : Bool :=
  earlier.any fun b => (g.layout.split b.adr).line == line && (g.layout.split b.adr).tag != g.layout.tagMask

/-- The cold line hides the block of an address: it is still there, or it was written over the block. -/
def hidden (earlier : List Beat) (adr : Nat) : Bool :=
  (g.layout.split adr).tag == g.layout.tagMask &&
    (g.dirtyInit || !g.drivenOut earlier (g.layout.split adr).line)

/-- The word at an address of a memory of blocks. -/
def wordOf (blocks : Nat → Block) (adr : Nat) : Nat :=
  let a := g.layout.split adr
  Block.word g.busBytes a.offset (blocks (g.layout.blockAddr a.line a.tag))

/-- The word that a read sees after the earlier ones. -/
def visible (blocks : Nat → Block) (earlier : List Beat) (adr : Nat) : Nat :=
  if g.hidden earlier adr then 0 else g.wordOf blocks adr

theorem drivenOut_append (earlier : List Beat) (b : Beat) (line : Nat) :
    g.drivenOut (earlier ++ [b]) line =
      (g.drivenOut earlier line ||
        ((g.layout.split b.adr).line == line && (g.layout.split b.adr).tag != g.layout.tagMask)) := by
  simp [drivenOut]

/-- A read does not change what it sees. -/
theorem visible_append (blocks : Nat → Block) (earlier : List Beat) (adr : Nat) :
    g.visible blocks (earlier ++ [.read adr]) adr = g.visible blocks earlier adr := by
  rw [visible, visible]
  cases htag : (g.layout.split adr).tag == g.layout.tagMask with
  | false => simp [hidden, htag]
  | true => simp [hidden, g.drivenOut_append, beq_iff_eq.mp htag]

end Geometry

/-! ## Reads on the untimed cache -/

namespace Untimed

variable {g : Geometry} {blocks : Nat → Block} {earlier : List Beat} {u : Untimed}

/-- After some reads of a cache over the given blocks: the lines from which the cold line was driven out hold
blocks of the store, clean, and the store has lost what dirty cold lines were written over. -/
structure ReadOnly (g : Geometry) (blocks : Nat → Block) (earlier : List Beat) (u : Untimed) : Prop where
  cold : ∀ {i}, i < g.lines → g.drivenOut earlier i = false → u.lines i = g.coldLine
  warm : ∀ {i}, i < g.lines → g.drivenOut earlier i = true → ∃ tag < 2 ^ g.layout.tagBits,
    u.lines i = ⟨tag, false, u.blocks (g.layout.blockAddr i tag)⟩
  store : ∀ {i tag}, i < g.lines → tag < 2 ^ g.layout.tagBits →
    u.blocks (g.layout.blockAddr i tag) =
      if g.dirtyInit && tag == g.layout.tagMask && g.drivenOut earlier i then Block.zeros g.lineBytes
      else blocks (g.layout.blockAddr i tag)

theorem readOnly_cold (g : Geometry) (blocks : Nat → Block) : ReadOnly g blocks [] (.cold g blocks) where
  cold _ _ := rfl
  warm _ h := by cases h
  store _ _ := by simp [Geometry.drivenOut, Untimed.cold]

/-- The word that a read finds in a line that holds its block. -/
theorem ReadOnly.readWord_eq (h : ReadOnly g blocks earlier u) (adr : Nat)
    (hholds : u.holds (g.layout.split adr) = true) :
    u.readWord g (g.layout.split adr) = g.visible blocks earlier adr := by
  have hline := g.split_line_lt adr
  rw [holds, beq_iff_eq] at hholds
  cases hdriven : g.drivenOut earlier (g.layout.split adr).line with
  | false =>
      have hcold := h.cold hline hdriven
      rw [hcold] at hholds
      have htag : (g.layout.split adr).tag = g.layout.tagMask := hholds.symm
      have hhidden : g.hidden earlier adr = true := by simp [Geometry.hidden, htag, hdriven]
      rw [Geometry.visible, hhidden, if_pos rfl, readWord, hcold]
      exact Block.word_zeros ..
  | true =>
      obtain ⟨tag, htag, hwarm⟩ := h.warm hline hdriven
      rw [hwarm] at hholds
      obtain rfl : tag = (g.layout.split adr).tag := hholds
      rw [readWord, hwarm]
      dsimp only
      rw [h.store hline htag]
      cases hdirty : g.dirtyInit <;> cases hmask : (g.layout.split adr).tag == g.layout.tagMask <;>
        simp [Geometry.visible, Geometry.hidden, Geometry.wordOf, hdriven, hdirty, hmask, Block.word_zeros]

@[simp] theorem lines_makeRoom (a : Address) : (u.makeRoom g a).lines = u.lines := by
  unfold makeRoom
  split <;> rfl

/-- A read that misses leaves its line to another block. -/
theorem ReadOnly.drivenOut_self (h : ReadOnly g blocks earlier u) {adr : Nat}
    (hmiss : u.holds (g.layout.split adr) = false) :
    g.drivenOut (earlier ++ [.read adr]) (g.layout.split adr).line = true := by
  rw [g.drivenOut_append]
  cases hdriven : g.drivenOut earlier (g.layout.split adr).line with
  | true => rfl
  | false =>
      rw [holds, h.cold (g.split_line_lt adr) hdriven, beq_eq_false_iff_ne] at hmiss
      have htag : (g.layout.split adr).tag ≠ g.layout.tagMask := fun htag => hmiss htag.symm
      simp [htag]

theorem blocks_makeRoom (a : Address) (b : Nat) :
    (u.makeRoom g a).blocks b =
      if (u.lines a.line).dirty = true ∧ b = g.layout.blockAddr a.line (u.lines a.line).tag then
        (u.lines a.line).data
      else u.blocks b := by
  cases hdirty : (u.lines a.line).dirty with
  | true =>
      by_cases hb : b = g.layout.blockAddr a.line (u.lines a.line).tag <;>
        simp [makeRoom_of_dirty hdirty, writeBack, countMiss, hb]
  | false => simp [makeRoom_of_clean hdirty, countMiss]

/-- A miss writes the line back if that is cold still and dirty. -/
theorem ReadOnly.store_makeRoom (h : ReadOnly g blocks earlier u) {adr : Nat}
    (hmiss : u.holds (g.layout.split adr) = false) {i tag : Nat} (hi : i < g.lines)
    (htag : tag < 2 ^ g.layout.tagBits) :
    (u.makeRoom g (g.layout.split adr)).blocks (g.layout.blockAddr i tag) =
      if g.dirtyInit && tag == g.layout.tagMask && g.drivenOut (earlier ++ [.read adr]) i then
        Block.zeros g.lineBytes
      else blocks (g.layout.blockAddr i tag) := by
  have hline := g.split_line_lt adr
  have hself := h.drivenOut_self hmiss
  rw [blocks_makeRoom, h.store hi htag]
  cases hdriven : g.drivenOut earlier (g.layout.split adr).line with
  | true =>
      -- a line that was filled is clean, as nothing was written since
      obtain ⟨_, _, hwarm⟩ := h.warm hline hdriven
      have hsame : g.drivenOut (earlier ++ [.read adr]) i = g.drivenOut earlier i := by
        by_cases hat : i = (g.layout.split adr).line
        · rw [hat, hself, hdriven]
        · simp [g.drivenOut_append, Ne.symm hat]
      rw [hwarm, if_neg (by simp), hsame]
  | false =>
      have haddr : g.layout.blockAddr i tag =
          g.layout.blockAddr (g.layout.split adr).line g.layout.tagMask ↔
            i = (g.layout.split adr).line ∧ tag = g.layout.tagMask :=
        g.layout.blockAddr_inj (g.lines_eq ▸ hi) (g.lines_eq ▸ hline) htag g.layout.tagMask_lt
      rw [h.cold hline hdriven]
      simp only [Geometry.coldLine, haddr]
      by_cases hat : i = (g.layout.split adr).line
      · subst hat
        cases hdirty : g.dirtyInit <;> by_cases hmask : tag = g.layout.tagMask <;>
          simp [hdriven, hself, hmask]
      · simp [g.drivenOut_append, hat, Ne.symm hat]

/-- A read that misses. -/
theorem ReadOnly.fill (h : ReadOnly g blocks earlier u) {adr : Nat}
    (hmiss : u.holds (g.layout.split adr) = false) :
    ReadOnly g blocks (earlier ++ [.read adr])
      ((u.makeRoom g (g.layout.split adr)).fill g (g.layout.split adr)) := by
  have hother {i : Nat} (hi : i ≠ (g.layout.split adr).line) :
      g.drivenOut (earlier ++ [.read adr]) i = g.drivenOut earlier i := by
    simp [g.drivenOut_append, Ne.symm hi]
  refine ⟨fun {i} hi hdriven => ?_, fun {i} hi hdriven => ?_, fun hi htag => h.store_makeRoom hmiss hi htag⟩
  · have hne : i ≠ (g.layout.split adr).line := by
      rintro rfl
      rw [h.drivenOut_self hmiss] at hdriven
      cases hdriven
    rw [hother hne] at hdriven
    simp [Untimed.fill, hne, h.cold hi hdriven]
  · by_cases hat : i = (g.layout.split adr).line
    · exact ⟨(g.layout.split adr).tag, g.layout.split_tag_lt adr, by simp [Untimed.fill, hat]⟩
    · obtain ⟨tag, htag, hwarm⟩ := h.warm hi (hother hat ▸ hdriven)
      refine ⟨tag, htag, ?_⟩
      have hkept : (u.makeRoom g (g.layout.split adr)).blocks (g.layout.blockAddr i tag) =
          u.blocks (g.layout.blockAddr i tag) := by
        rw [h.store_makeRoom hmiss hi htag, h.store hi htag, hother hat]
      simp [Untimed.fill, hat, hwarm, hkept]

/-- A read that hits. -/
theorem ReadOnly.hit (h : ReadOnly g blocks earlier u) {adr : Nat}
    (hholds : u.holds (g.layout.split adr) = true) : ReadOnly g blocks (earlier ++ [.read adr]) u := by
  have hsame {i : Nat} (hi : i < g.lines) :
      g.drivenOut (earlier ++ [.read adr]) i = g.drivenOut earlier i := by
    rw [g.drivenOut_append]
    cases hdriven : g.drivenOut earlier i with
    | true => rfl
    | false =>
        -- a cold line that is hit keeps its block
        by_cases hat : (g.layout.split adr).line = i
        · rw [holds, hat, h.cold hi hdriven, beq_iff_eq] at hholds
          have htag : (g.layout.split adr).tag = g.layout.tagMask := hholds.symm
          simp [htag]
        · simp [hat]
  refine ⟨fun hi hdriven => h.cold hi (hsame hi ▸ hdriven), fun hi hdriven => h.warm hi (hsame hi ▸ hdriven),
    fun hi htag => ?_⟩
  rw [hsame hi]
  exact h.store hi htag

theorem ReadOnly.fetch (h : ReadOnly g blocks earlier u) (adr : Nat) :
    ReadOnly g blocks (earlier ++ [.read adr]) (u.fetch g (g.layout.split adr)) := by
  cases hholds : u.holds (g.layout.split adr) with
  | true =>
      rw [fetch_of_holds hholds]
      exact h.hit hholds
  | false =>
      rw [fetch_of_not_holds hholds]
      exact h.fill hholds

/-- **One read**. -/
theorem ReadOnly.step (h : ReadOnly g blocks earlier u) (adr : Nat) :
    ReadOnly g blocks (earlier ++ [.read adr]) (u.step g (.read adr)).2 ∧
      (u.step g (.read adr)).1 = [g.visible blocks earlier adr] := by
  have hfetched := h.fetch adr
  have hword := hfetched.readWord_eq adr holds_fetch
  rw [g.visible_append] at hword
  exact ⟨⟨hfetched.cold, hfetched.warm, hfetched.store⟩, congrArg (fun word => [word]) hword⟩

/-- **Any reads**, from the first one on. -/
theorem ReadOnly.run (h : ReadOnly g blocks earlier u) {beats : List Beat}
    (hreads : ∀ b ∈ beats, b.we = false) :
    ReadOnly g blocks (earlier ++ beats) (u.run g beats).2 ∧
      (u.run g beats).1 = beats.mapIdx fun k b => g.visible blocks (earlier ++ beats.take k) b.adr := by
  induction beats generalizing earlier u with
  | nil => exact ⟨by rwa [List.append_nil], rfl⟩
  | cons b beats ih =>
      obtain ⟨hb, hbeats⟩ := List.forall_mem_cons.mp hreads
      cases b with
      | write adr word sel => cases hb
      | read adr =>
          obtain ⟨hstep, hword⟩ := h.step adr
          obtain ⟨hrun, hwords⟩ := ih hstep hbeats
          rw [run_cons]
          refine ⟨by simpa using hrun, ?_⟩
          dsimp only
          rw [hword, hwords, List.mapIdx_cons]
          simp

/-! ## Clean lines, in every cycle -/

/-- A clean line is in the store, or it is cold still; `cold` says which lines were never filled. -/
def Backed (g : Geometry) (cold : Nat → Prop) (u : Untimed) : Prop :=
  ∀ i < g.lines, (u.lines i).dirty = false →
    (cold i ∧ u.lines i = g.coldLine) ∨ u.blocks (g.layout.blockAddr i (u.lines i).tag) = (u.lines i).data

variable {cold : Nat → Prop}

theorem Backed.perform (h : Backed g cold u) (b : Beat) (hit : Bool) : Backed g cold (u.perform g b hit) := by
  intro i hi hclean
  cases b with
  | read adr => exact h i hi hclean
  | write adr word sel =>
      by_cases hat : i = (g.layout.split adr).line
      · simp [Untimed.perform, writeWord, hat] at hclean
      · have hkept : (u.perform g (.write adr word sel) hit).lines i = u.lines i := by
          simp [Untimed.perform, writeWord, hat]
        rw [hkept] at hclean ⊢
        exact h i hi hclean

/-- Writing a dirty line back leaves the blocks of the clean ones alone. -/
theorem Backed.writeBack (h : Backed g cold u) {line : Nat} (hline : line < g.lines)
    (hdirty : (u.lines line).dirty = true) (htag : ∀ i < g.lines, (u.lines i).tag < 2 ^ g.layout.tagBits) :
    Backed g cold (u.writeBack g line) := by
  intro i hi hclean
  have hne : i ≠ line := by
    rintro rfl
    exact absurd (hdirty.symm.trans hclean) (by decide)
  have haddr : g.layout.blockAddr i (u.lines i).tag ≠ g.layout.blockAddr line (u.lines line).tag := by
    intro heq
    rw [g.lines_eq] at hi hline
    exact hne ((g.layout.blockAddr_inj hi hline (htag i (g.lines_eq ▸ hi)) (htag line (g.lines_eq ▸ hline))).mp
      heq).1
  exact (h i hi hclean).imp_right fun hstore => (if_neg haddr).trans hstore

/-- A line that is filled is in the store, and is cold no longer. -/
theorem Backed.fill (h : Backed g cold u) (a : Address) :
    Backed g (fun i => cold i ∧ i ≠ a.line) (u.fill g a) := by
  intro i hi hclean
  by_cases hat : i = a.line
  · simp [Untimed.fill, hat]
  · have hkept : (u.fill g a).lines i = u.lines i := by simp [Untimed.fill, hat]
    rw [hkept] at hclean ⊢
    exact (h i hi hclean).imp_left fun hfirst => ⟨⟨hfirst.1, hat⟩, hfirst.2⟩

end Untimed

namespace Simulator

variable {L : Type} [LatencyModel L] {g : Geometry} {u : Untimed} {s : Simulator (MemoryStore L)}

/-- **One cycle**, with any request on the bus. -/
theorem backed_advance {cold : Nat → Prop} (hstep : s.InStep) (hshows : s.Shows u)
    (h : u.Backed s.cache.geometry cold) (r : Bus.Request) :
    (s.advance r u).Backed s.cache.geometry
      fun i => cold i ∧ ¬(s.transfers.read.isSome = true ∧ s.cache.missed.line = i) := by
  cases hs : s.cache.state with
  | check =>
      have hread : s.transfers.read = none := Cache.resolve_check hs _
      simp only [advance, hs, hread, Option.isSome_none, Bool.false_eq_true, false_and, not_false_eq_true,
        and_true]
      split
      · exact h.perform _ _
      · split
        · exact h
        · exact h
  | evict p =>
      have hread : s.transfers.read = none := Cache.resolve_evict hs _
      simp only [advance, hs, hread, Option.isSome_none, Bool.false_eq_true, false_and, not_false_eq_true,
        and_true]
      split
      · have hdirty : (u.lines s.cache.missed.line).dirty = true := by
          rw [hshows.victim hstep hs]
          exact (hstep.valid.evict_settled hs).2.2
        have htag : ∀ i < s.cache.geometry.lines, (u.lines i).tag < 2 ^ s.cache.geometry.layout.tagBits :=
          fun i hi => hstep.valid.tag_lt (hshows.lines i hi)
        exact h.writeBack (s.cache.geometry.split_line_lt _) hdirty htag
      · exact h
  | refill p =>
      cases hread : s.transfers.read with
      | none => simpa [advance, hs, hread] using h
      | some block => simpa [advance, hs, hread, eq_comm] using h.fill s.cache.missed

variable {config : Config} {latency : L} {contents : List (Nat × Block × Nat)}

/-- **A clean line is in the store**, in every cycle of every run, unless it was never filled: then it is the
cold line still. -/
theorem Trace.clean_line_backed (hg : Geometry.ofConfig config.cache config.backing = .ok g)
    {cycles : List (Cycle (MemoryStore L))} (h : Trace (ofContents config g latency contents) cycles s) {i : Nat}
    {l : Cache.Line} (hl : s.cache.line? i = some l) (hclean : l.dirty = false) :
    ((∀ c ∈ cycles, ¬c.Refills i) ∧ l = g.coldLine) ∨
      s.link.store.readBlock (g.layout.blockAddr i l.tag) = l.data := by
  have hrun : ∃ u, s.InStep ∧ s.cache.geometry = g ∧ s.Shows u ∧
      u.Backed g fun i => ∀ c ∈ cycles, ¬c.Refills i := by
    clear hl
    induction h with
    | nil =>
        obtain ⟨hstep, hgeometry, hshows, _, _⟩ := rests_ofContents hg latency contents
        exact ⟨_, hstep, hgeometry, hshows, fun i _ _ => .inl ⟨List.forall_mem_nil _, rfl⟩⟩
    | @snoc cycles s s' bus response _ htick ih =>
        obtain ⟨u, hstep, rfl, hshows, hbacked⟩ := ih
        obtain ⟨_, _, _, rfl⟩ := run_tick_eq_ok.mp htick
        refine ⟨s.advance bus u, hstep.next bus, Cache.geometry_next .., hshows.next hstep bus, ?_⟩
        have hnext := backed_advance hstep hshows hbacked bus
        intro i hi hclean
        refine (hnext i hi hclean).imp_left fun ⟨⟨hcold, hrefill⟩, heq⟩ => ⟨?_, heq⟩
        exact List.forall_mem_append.mpr ⟨hcold, List.forall_mem_singleton.mpr hrefill⟩
  obtain ⟨u, _, rfl, hshows, hbacked⟩ := hrun
  have hi := (Cache.line?_eq_some.mp hl).1
  rw [hshows.lines i hi] at hl
  obtain rfl := Option.some.inj hl
  rw [hshows.blocks _ (s.cache.geometry.layout.blockAddr_lt ..)]
  exact hbacked i hi hclean

/-! ## Reads of a store that is not empty -/

/-- **What a cold cache shows of its store**, for every configuration, latency model, contents of the store and
list of reading transactions that the initiator completes.

* Each read sees the word that was in the store, except that a word of the largest tag reads as zero while
  the cold line is in its line; if the lines start out dirty it reads as zero from then on, too.
* The blocks of the store are as before, except that a dirty cold line is written over its block when another
  block drives it out.
* In every cycle of every run, a clean line that was ever filled equals its block of the store. -/
theorem preloaded_contents_read (hg : Geometry.ofConfig config.cache config.backing = .ok g) (latency : L)
    (contents : List (Nat × Block × Nat)) (timeout : Nat) {transactions : List Transaction}
    (hreads : ∀ t ∈ transactions, t.reads = true) {words : List (List Nat)}
    (h : (transactions.mapM (Initiator.mk g timeout).execute).run (ofContents config g latency contents) =
      .ok words s) :
    let beats := transactions.flatMap (·.toBeats g)
    let blocks := MemoryStore.preloaded config.backing contents
    words.flatten = beats.mapIdx (fun k b => g.visible blocks (beats.take k) b.adr) ∧
      (∀ line < g.lines, ∀ tag < 2 ^ g.layout.tagBits,
        s.link.store.readBlock (g.layout.blockAddr line tag) =
          if g.dirtyInit && tag == g.layout.tagMask && g.drivenOut beats line then Block.zeros g.lineBytes
          else blocks (g.layout.blockAddr line tag)) ∧
      ∀ cycles s', Trace (ofContents config g latency contents) cycles s' →
        ∀ i l, s'.cache.line? i = some l → l.dirty = false →
          ((∀ c ∈ cycles, ¬c.Refills i) ∧ l = g.coldLine) ∨
            s'.link.store.readBlock (g.layout.blockAddr i l.tag) = l.data := by
  intro beats blocks
  have hreturns := (Initiator.mk g timeout).refines_mapM_execute (rests_ofContents hg latency contents)
    transactions
  rw [Returns, h] at hreturns
  obtain ⟨hrests, hwords⟩ := hreturns
  have hbeats : ∀ b ∈ beats, b.we = false := by
    intro b hb
    obtain ⟨t, ht, hbt⟩ := List.mem_flatMap.mp hb
    rw [t.we_toBeats g b hbt, hreads t ht]
    rfl
  obtain ⟨hreadOnly, hseen⟩ := (Untimed.readOnly_cold g blocks).run hbeats
  refine ⟨hwords.trans hseen, fun line hline tag htag => ?_, fun _ _ htrace _ _ => htrace.clean_line_backed hg⟩
  have hblock := hrests.shows.blocks (g.layout.blockAddr line tag)
  rw [hrests.geometry_eq] at hblock
  rw [hblock (g.layout.blockAddr_lt ..)]
  exact hreadOnly.store hline htag

/-- A burst over a block that the cold line hides and a block that drives it out, after which the hidden block is
there. -/
theorem preloaded_contents_read_tiny :
    ∃ words s, ([.burstRead 6 .linear 4, .read 6].mapM (Initiator.mk tiny 20).execute).run
        (ofContents tinyConfig tiny (Timing.fixed 1) [(3, [1, 2, 3, 4], 15), (0, [5, 6, 7, 8], 15)]) =
          .ok words s ∧ words.flatten = [0, 0, 0x0605, 0x0807, 0x0201] := by
  have hok : (([.burstRead 6 .linear 4, .read 6].mapM (Initiator.mk tiny 20).execute).run'
      (ofContents tinyConfig tiny (Timing.fixed 1)
        [(3, [1, 2, 3, 4], 15), (0, [5, 6, 7, 8], 15)])).isSome = true := by
    decide +kernel
  cases hrun : ([.burstRead 6 .linear 4, .read 6].mapM (Initiator.mk tiny 20).execute).run
      (ofContents tinyConfig tiny (Timing.fixed 1) [(3, [1, 2, 3, 4], 15), (0, [5, 6, 7, 8], 15)]) with
  | ok words s =>
      obtain ⟨hwords, _⟩ := preloaded_contents_read ofConfig_tinyConfig (Timing.fixed 1)
        [(3, [1, 2, 3, 4], 15), (0, [5, 6, 7, 8], 15)] 20 (by decide) hrun
      exact ⟨words, s, rfl, hwords.trans (by decide +kernel)⟩
  | error e s =>
      delta EStateM.run' at hok
      rw [hrun] at hok
      cases hok

/-- The first read of a preloaded word of the largest tag does not see it. -/
theorem preloaded_word_hidden :
    ∃ words s, ([.read 6].mapM (Initiator.mk tiny 20).execute).run
        (ofContents tinyConfig tiny (Timing.fixed 1) [(3, [1, 2, 3, 4], 15)]) = .ok words s ∧
      words.flatten ≠ [tiny.wordOf (MemoryStore.preloaded tinyConfig.backing [(3, [1, 2, 3, 4], 15)]) 6] := by
  have hread : (match ([.read 6].mapM (Initiator.mk tiny 20).execute).run
      (ofContents tinyConfig tiny (Timing.fixed 1) [(3, [1, 2, 3, 4], 15)]) with
      | .ok words _ => words.flatten
      | .error .. => []) = [0] := by
    decide +kernel
  cases hrun : ([.read 6].mapM (Initiator.mk tiny 20).execute).run
      (ofContents tinyConfig tiny (Timing.fixed 1) [(3, [1, 2, 3, 4], 15)]) with
  | ok words s =>
      rw [hrun] at hread
      have hword : tiny.wordOf (MemoryStore.preloaded tinyConfig.backing [(3, [1, 2, 3, 4], 15)]) 6 = 0x0201 := by
        decide +kernel
      refine ⟨words, s, rfl, ?_⟩
      dsimp only at hread
      rw [hread, hword]
      decide
  | error e s =>
      rw [hrun] at hread
      cases hread

end Simulator

end WriteBack
