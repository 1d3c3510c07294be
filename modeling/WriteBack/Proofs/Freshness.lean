import WriteBack.Proofs.Offers

/-!
# WriteBack.Proofs.Freshness

What the cache acts on is what its memories hold. The read registers are copies from an earlier cycle, and a
write or a refill since then may have changed the line; still every acknowledgement, every miss and every
write-back agrees with the line as it is in that very cycle (`lookups_fresh`). So a write never changes the tag
of its line, and a tag changes only as the block of a refill arrives (`Valid.tag_next`).
-/

namespace WriteBack.Cache

open Link

/-! ## Tags over one cycle -/

namespace Valid

variable {c : Cache}

/-- A cycle that serves requests keeps every tag: a write that hits stores the tag that is there. -/
theorem tag_checkEdge (hv : c.Valid) (hs : c.state = .check) (bus : Bus.Request) {i : Nat} {l : Line}
    (hl : c.line? i = some l) : ∃ l', (c.checkEdge bus).line? i = some l' ∧ l'.tag = l.tag := by
  rw [line?_checkEdge]
  cases hw : c.writesLine bus i with
  | false => exact ⟨l, hl, rfl⟩
  | true =>
      obtain ⟨hacks, _, htarget⟩ := (c.writesLine_iff bus i).mp hw
      obtain ⟨l', hl', htag, _⟩ := hv.line?_of_acks hs hacks
      rw [htarget, hl] at hl'
      cases hl'
      rw [if_pos rfl, hl]
      exact ⟨_, rfl, htag.symm⟩

/-- **A tag changes only on a read beat of a refill**, and only that of the line that missed. -/
theorem tag_next (hv : c.Valid) (bus : Bus.Request) (link : Response) {i : Nat} {l l' : Line}
    (hl : c.line? i = some l) (hl' : (c.next bus link).line? i = some l') (htag : l'.tag ≠ l.tag) :
    ∃ p block, c.state = .refill p ∧ (Transfers.resolve c.linkRequest link).read = some block ∧
      i = c.missed.line ∧ l'.tag = c.missed.tag := by
  cases hs : c.state with
  | check =>
      obtain ⟨l'', hl'', hkept⟩ := hv.tag_checkEdge hs bus hl
      rw [next_check hs, hl''] at hl'
      cases hl'
      exact absurd hkept htag
  | evict p =>
      rw [next_evict hs, line?_evictEdge, hl] at hl'
      cases hl'
      exact absurd rfl htag
  | refill p =>
      rw [next_refill hs, line?_refillEdge] at hl'
      cases hread : (Transfers.resolve c.linkRequest link).read with
      | none =>
          rw [hread, hl] at hl'
          cases hl'
          exact absurd rfl htag
      | some block =>
          rw [hread] at hl'
          dsimp only at hl'
          rw [hv.line?_install block i (line?_eq_some.mp hl).1] at hl'
          split at hl'
          · next hline =>
            cases hl'
            exact ⟨p, block, rfl, rfl, hline.symm, rfl⟩
          · rw [hl] at hl'
            cases hl'
            exact absurd rfl htag

end Valid

/-! ## A cycle of a run -/

namespace Cycle

/-- What the cache answers on the bus. -/
def response (k : Cycle) : Bus.Response := (k.before.step k.bus k.link).1.bus

/-- The fields of the requested address. -/
def target (k : Cycle) : Address := k.before.target k.bus

/-- The lookup found another block in its line: the cache stops serving requests. -/
def DecidesMiss (k : Cycle) : Prop := k.before.state = .check ∧ k.after.state ≠ .check

/-- What the cache does in a cycle agrees with what its memories hold in that cycle. -/
structure Fresh (k : Cycle) : Prop where
  /-- An acknowledged beat finds its block in the line, and a read is answered from the line's own data. -/
  hit : k.response.ack = true → ∃ l, k.before.line? k.target.line = some l ∧ l.tag = k.target.tag ∧
    (k.bus.we = false → k.before.data.out = l.data)
  /-- A beat that misses does not find it, and the line is written back if it is dirty. -/
  miss : k.DecidesMiss → ∃ l, k.before.line? k.target.line = some l ∧ l.tag ≠ k.target.tag ∧
    k.after.state = if l.dirty then .evict {} else .refill {}
  /-- In every cycle of an eviction the read registers are the line that missed. -/
  victim : ∀ p, k.before.state = .evict p → ∃ l, k.before.line? k.before.missed.line = some l ∧
    k.before.tags.out = ⟨l.tag, l.dirty⟩ ∧ k.before.data.out = l.data
  /-- An acknowledged beat, be it a write, leaves every tag as it is. -/
  tag_of_ack : k.response.ack = true → ∀ i l, k.before.line? i = some l →
    ∃ l', k.after.line? i = some l' ∧ l'.tag = l.tag
  /-- A tag changes only as a refill takes its block, to the tag of the request. -/
  tag_change : ∀ i l l', k.before.line? i = some l → k.after.line? i = some l' → l'.tag ≠ l.tag →
    ∃ p block, k.before.state = .refill p ∧ k.transfers.read = some block ∧ i = k.before.missed.line ∧
      l'.tag = k.before.missed.tag

/-- The state says that a request missed. -/
theorem misses_of_decidesMiss {k : Cycle} (h : k.DecidesMiss) :
    k.before.misses k.bus = true ∧
      k.after.state = if k.before.tags.out.dirty then .evict {} else .refill {} := by
  obtain ⟨hs, hstalled⟩ := h
  have hafter : k.after.state = (k.before.checkEdge k.bus).state := by rw [after, step_snd, next_check hs]
  rw [state_checkEdge] at hafter
  cases hmiss : k.before.misses k.bus with
  | true =>
      rw [hmiss] at hafter
      exact ⟨rfl, hafter⟩
  | false =>
      rw [hmiss] at hafter
      exact absurd hafter hstalled

theorem fresh_of_valid {k : Cycle} (hv : k.before.Valid) : k.Fresh where
  hit hack := by
    obtain ⟨hs, hacks⟩ := (k.before.ack_busResponse k.bus).mp hack
    obtain ⟨l, hl, htag, hloaded⟩ := hv.line?_of_acks hs hacks
    exact ⟨l, hl, htag, fun hwe => (congrArg Line.data (hloaded hwe)).symm⟩
  miss hmiss := by
    obtain ⟨hmisses, hafter⟩ := misses_of_decidesMiss hmiss
    obtain ⟨hl, htag⟩ := hv.line?_of_misses hmisses
    exact ⟨_, hl, htag, hafter⟩
  victim p hs := by
    obtain ⟨hawaits, hstale, _⟩ := hv.evict_settled hs
    exact ⟨_, hv.line?_of_awaits hawaits hstale, rfl, rfl⟩
  tag_of_ack hack i l hl := by
    obtain ⟨hs, _⟩ := (k.before.ack_busResponse k.bus).mp hack
    rw [after, step_snd, next_check hs]
    exact hv.tag_checkEdge hs k.bus hl
  tag_change i l l' hl hl' htag := hv.tag_next k.bus k.link hl hl' htag

end Cycle

/-- Every cycle of a run starts with a valid cache. -/
theorem valid_of_mem_run {c : Cache} (hv : c.Valid) {inputs : List (Bus.Request × Response)} {k : Cycle}
    (h : k ∈ c.run inputs) : k.before.Valid :=
  invariant_of_mem_run (fun _ bus link hv => hv.next bus link) hv h

/-- **Lookups are fresh**, for every geometry, every sequence of requests on the bus and every sequence of answers
of the store: in each cycle of a run from the cold cache on, hits, misses and write-backs agree with the lines as
they are in that cycle, an acknowledged write keeps the tag of its line, and a tag changes only on an accepted
read beat of a refill. -/
theorem lookups_fresh (g : Geometry) (inputs : List (Bus.Request × Response)) :
    ∀ k ∈ (ofGeometry g).run inputs, k.Fresh :=
  fun _ hk => Cycle.fresh_of_valid (valid_of_mem_run (valid_ofGeometry g) hk)

/-- A write makes the copy in the read registers stale. The miss that follows waits until the line has been read
again, and the word goes to the store. -/
theorem lookups_fresh_after_write :
    ∃ k ∈ (ofGeometry Simulator.tiny).run
        [(.write 6 0xabcd 3, {}), (.write 6 0xabcd 3, {}), (.read 0 3, {}), (.read 0 3, {}), (.read 0 3, {})],
      k.before.state = .evict {} ∧ k.offer.write = some ⟨[0xcd, 0xab, 0, 0], 15⟩ ∧
        ∃ l, k.before.line? 0 = some l ∧ l.dirty = true ∧ l.data = [0xcd, 0xab, 0, 0] := by
  have hrun : ∃ k ∈ (ofGeometry Simulator.tiny).run
        [(.write 6 0xabcd 3, {}), (.write 6 0xabcd 3, {}), (.read 0 3, {}), (.read 0 3, {}), (.read 0 3, {})],
      k.before.state = .evict {} ∧ k.offer.write = some ⟨[0xcd, 0xab, 0, 0], 15⟩ ∧
        k.before.missed.line = 0 ∧ k.before.tags.out.dirty = true ∧
        k.before.data.out = [0xcd, 0xab, 0, 0] := by
    decide +kernel
  obtain ⟨k, hk, hs, hwrite, hline, hdirty, hdata⟩ := hrun
  obtain ⟨l, hl, htags, hout⟩ := (lookups_fresh _ _ k hk).victim _ hs
  rw [hline] at hl
  rw [htags] at hdirty
  exact ⟨k, hk, hs, hwrite, l, hl, hdirty, hout.symm.trans hdata⟩

end WriteBack.Cache
