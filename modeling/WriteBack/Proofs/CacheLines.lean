import WriteBack.Cache.Step
import WriteBack.Proofs.Layout
import WriteBack.Proofs.Word

/-!
# WriteBack.Proofs.CacheLines

What one cycle does to the lines of a cache. Only two kinds of cycle change a line: an acknowledged write
(`line?_checkEdge`) and the read beat of a refill (`line?_install`); every other line, and every line in any
other cycle, stays as it is.
-/

namespace WriteBack.Cache

variable (c : Cache)

/-- What the read registers hold, as a line. -/
def loaded : Line := ⟨c.tags.out.tag, c.tags.out.dirty, c.data.out⟩

/-! ## The three edges -/

/-- What a cycle does to a cache that serves requests. -/
theorem next_check {c : Cache} (h : c.state = .check) (bus : Bus.Request) (link : Link.Response) :
    c.next bus link = c.checkEdge bus := by
  simp only [next, h]

/-- What a cycle does to a cache that evicts a line. -/
theorem next_evict {c : Cache} {p : Progress} (h : c.state = .evict p) (bus : Bus.Request)
    (link : Link.Response) : c.next bus link = c.evictEdge p (.resolve c.linkRequest link) := by
  simp only [next, h]

/-- What a cycle does to a cache that refills a line. -/
theorem next_refill {c : Cache} {p : Progress} (h : c.state = .refill p) (bus : Bus.Request)
    (link : Link.Response) : c.next bus link = c.refillEdge p (.resolve c.linkRequest link) := by
  simp only [next, h]

/-- A miss is what ends the serving of requests: it evicts a dirty victim, and refills a clean one at once. -/
theorem state_checkEdge (bus : Bus.Request) :
    (c.checkEdge bus).state =
      if c.misses bus then if c.tags.out.dirty then .evict {} else .refill {} else .check := rfl

/-- A miss makes the request one that is tried again, up to the next acknowledgement. -/
theorem retrying_checkEdge (bus : Bus.Request) :
    (c.checkEdge bus).retrying = (c.misses bus || (c.retrying && !c.acks bus)) := rfl

/-- The handshakes of an eviction after a cycle with the given transfers. -/
def evictProgress (p : Progress) (t : Link.Transfers) : Progress :=
  ⟨p.command || t.command.isSome, p.beat || t.write.isSome⟩

/-- The handshakes of a refill after a cycle with the given transfers. -/
def refillProgress (p : Progress) (t : Link.Transfers) : Progress :=
  ⟨p.command || t.command.isSome, p.beat || t.read.isSome⟩

/-- An eviction lasts until both handshakes are done, and a refill follows it. -/
theorem state_evictEdge (p : Progress) (t : Link.Transfers) :
    (c.evictEdge p t).state = if p.isDone then .refill {} else .evict (evictProgress p t) := rfl

/-- A refill lasts until both handshakes are done. -/
theorem state_refillEdge (p : Progress) (t : Link.Transfers) :
    (c.refillEdge p t).state = if p.isDone then .check else .refill (refillProgress p t) := rfl

/-- An operation is done when its command and its beat are across. -/
theorem eq_of_isDone {p : Progress} (h : p.isDone = true) : p = ⟨true, true⟩ := by
  obtain ⟨command, beat⟩ := p
  simp only [Progress.isDone, Bool.and_eq_true] at h
  rw [h.1, h.2]

@[simp] theorem retrying_evictEdge (p : Progress) (t : Link.Transfers) :
    (c.evictEdge p t).retrying = c.retrying := rfl

/-- A stalled request stays one that is tried again. -/
@[simp] theorem retrying_refillEdge (p : Progress) (t : Link.Transfers) :
    (c.refillEdge p t).retrying = c.retrying := by
  unfold refillEdge
  cases t.read <;> rfl

@[simp] theorem geometry_checkEdge (bus : Bus.Request) : (c.checkEdge bus).geometry = c.geometry := rfl

@[simp] theorem geometry_evictEdge (p : Progress) (t : Link.Transfers) :
    (c.evictEdge p t).geometry = c.geometry := rfl

@[simp] theorem geometry_refillEdge (p : Progress) (t : Link.Transfers) :
    (c.refillEdge p t).geometry = c.geometry := by
  unfold refillEdge
  cases t.read <;> rfl

/-- No cycle changes the geometry. -/
@[simp] theorem geometry_next (bus : Bus.Request) (link : Link.Response) :
    (c.next bus link).geometry = c.geometry := by
  cases h : c.state with
  | check => rw [next_check h, geometry_checkEdge]
  | evict p => rw [next_evict h, geometry_evictEdge]
  | refill p => rw [next_refill h, geometry_refillEdge]

/-! ## Reading a line -/

/-- A line is there when both memories hold their part of it. -/
theorem line?_eq_some {c : Cache} {i : Nat} {l : Line} :
    c.line? i = some l ↔
      i < c.geometry.lines ∧ c.tags.peek? i = some ⟨l.tag, l.dirty⟩ ∧ c.data.peek? i = some l.data := by
  obtain ⟨tag, dirty, data⟩ := l
  unfold line?
  by_cases hi : i < c.geometry.lines
  · rw [if_pos hi]
    cases ht : c.tags.peek? i with
    | none => simp
    | some entry =>
        obtain ⟨tag', dirty'⟩ := entry
        cases hd : c.data.peek? i with
        | none => simp
        | some block => simp [hi, and_assoc]
  · rw [if_neg hi]
    simp [hi]

/-- Lines are determined by the geometry and the two memories. -/
theorem line?_congr {c c' : Cache} {i : Nat} (hg : c'.geometry = c.geometry)
    (ht : c'.tags.peek? i = c.tags.peek? i) (hd : c'.data.peek? i = c.data.peek? i) :
    c'.line? i = c.line? i := by
  rw [line?, line?, hg, ht, hd]

/-- An edge without a write changes no line, whatever it reads. -/
theorem line?_clockMemories_none (read : Option Nat) (i : Nat) :
    (c.clockMemories read none none).line? i = c.line? i :=
  line?_congr rfl rfl rfl

/-- An edge that writes both memories at a line changes that line alone. -/
theorem line?_clockMemories_some (read : Option Nat) (line : Nat) (f : TagEntry → TagEntry)
    (data : Block) (mask i : Nat) :
    (c.clockMemories read (some (line, f)) (some ⟨line, data, mask⟩)).line? i =
      if line = i then
        (c.line? i).map fun l =>
          ⟨(f ⟨l.tag, l.dirty⟩).tag, (f ⟨l.tag, l.dirty⟩).dirty,
            Block.merge c.data.granuleBytes mask data l.data⟩
      else c.line? i := by
  have ht : (c.clockMemories read (some (line, f)) (some ⟨line, data, mask⟩)).tags.peek? i =
      if line = i then (c.tags.peek? i).map f else c.tags.peek? i :=
    LineMemory.peek?_clock_some ..
  have hd : (c.clockMemories read (some (line, f)) (some ⟨line, data, mask⟩)).data.peek? i =
      if line = i then (c.data.peek? i).map (Block.merge c.data.granuleBytes mask data)
      else c.data.peek? i :=
    LineMemory.peek?_clock_some ..
  by_cases h : line = i
  · rw [if_pos h] at ht hd ⊢
    unfold line?
    rw [ht, hd]
    show (if i < c.geometry.lines then _ else _) = _
    split
    · cases c.tags.peek? i <;> cases c.data.peek? i <;> rfl
    · rfl
  · rw [if_neg h] at ht hd ⊢
    exact line?_congr rfl ht hd

/-! ## The cycles that change a line -/

/-- A line after an acknowledged write to it. -/
def overwrite (bus : Bus.Request) (l : Line) : Line :=
  ⟨(c.target bus).tag, true,
    Block.merge c.data.granuleBytes (c.writeMask bus)
      (Block.fill c.geometry.busBytes c.geometry.wordsPerLine bus.datW) l.data⟩

/-- Serving requests changes the written line only. -/
theorem line?_checkEdge (bus : Bus.Request) (i : Nat) :
    (c.checkEdge bus).line? i =
      if c.writesLine bus i then (c.line? i).map (c.overwrite bus) else c.line? i := by
  cases hw : c.writes bus with
  | false =>
      have ht : c.tagWrite bus = none := by simp [tagWrite, hw]
      have hd : c.dataWrite bus = none := by simp [dataWrite, hw]
      rw [checkEdge, ht, hd, line?_clockMemories_none]
      simp only [writesLine, hw, Bool.false_and, Bool.false_eq_true, if_false]
      exact line?_congr rfl rfl rfl
  | true =>
      have ht : c.tagWrite bus = some ((c.target bus).line, fun _ => ⟨(c.target bus).tag, true⟩) := by
        simp [tagWrite, hw]
      have hd : c.dataWrite bus = some ⟨(c.target bus).line,
          Block.fill c.geometry.busBytes c.geometry.wordsPerLine bus.datW, c.writeMask bus⟩ := by
        simp [dataWrite, hw]
      rw [checkEdge, ht, hd, line?_clockMemories_some]
      simp only [writesLine, hw, Bool.true_and, beq_iff_eq]
      rfl

/-- The line that a refill installs, in place of one with the given data. -/
def refilled (block old : Block) : Line :=
  ⟨c.missed.tag, false,
    Block.merge c.data.granuleBytes c.data.fullMask (Block.fit c.geometry.lineBytes block) old⟩

/-- A read beat replaces the line that missed. -/
theorem line?_install (block : Block) (i : Nat) :
    (c.install block).line? i =
      if c.missed.line = i then (c.line? i).map fun l => c.refilled block l.data else c.line? i := by
  rw [install, line?_clockMemories_some]
  rfl

/-- An eviction changes no line. -/
theorem line?_evictEdge (p : Progress) (t : Link.Transfers) (i : Nat) :
    (c.evictEdge p t).line? i = c.line? i :=
  line?_congr rfl rfl rfl

/-- A refill changes a line with its read beat alone. -/
theorem line?_refillEdge (p : Progress) (t : Link.Transfers) (i : Nat) :
    (c.refillEdge p t).line? i =
      match t.read with
      | none => c.line? i
      | some block => (c.install block).line? i := by
  unfold refillEdge
  cases t.read with
  | none => exact line?_congr rfl rfl rfl
  | some block => exact line?_congr rfl rfl rfl

end WriteBack.Cache
