import WriteBack.Proofs.Acceptance
import WriteBack.Proofs.Checked
import WriteBack.Proofs.Freshness

/-!
# WriteBack.Proofs.CheckedStep

The cache never fails. `Cache.step?` is one cycle of the cache in which everything that a machine can refuse is done
by an operation that does refuse: the fields of the addresses, the word that is read, the block and the mask that are
written, and the edges of both memories. For a geometry that is accepted it is never refused, and it is then the
cycle that the rest of the development is about (`Valid.step?_eq`). The numbers of lines that it uses come from
addresses and from the register that remembers which line was read, so the runs are those of a cache that keeps its
invariant (`steps_in_range`).
-/

namespace WriteBack

open Word

/-! ## Accepted geometries -/

namespace Geometry

variable {g : Geometry}

/-- The words of a line are few: their number is a plain shift away from one. -/
theorem offsetBits_lt (hpos : 0 < g.lineBytes) : g.layout.offsetBits < 64 := by
  have hbus : 0 < g.busBytes := by
    rw [g.lineBytes_eq] at hpos
    exact Nat.pos_of_mul_pos_left hpos
  have hwords : 2 ^ g.layout.offsetBits ≤ 64 := by
    rw [← g.wordsPerLine_eq]
    exact Nat.le_trans (Nat.le_mul_of_pos_right _ hbus) (g.lineBytes_eq ▸ g.lineBytes_le)
  exact Nat.lt_of_lt_of_le Nat.lt_two_pow_self hwords

/-- Words have a select bit if lines have a byte. -/
theorem selWidth_pos (hpos : 0 < g.lineBytes) : 0 < g.selWidth := by
  rw [g.lineBytes_eq, ← g.selWidth_mul_granuleBytes] at hpos
  exact Nat.pos_of_mul_pos_right (Nat.pos_of_mul_pos_left hpos)

/-- The bytes of a word are bytes of its line. -/
theorem word_le {offset : Nat} (h : offset < g.wordsPerLine) : offset * g.busBytes + g.busBytes ≤ g.lineBytes := by
  rw [← Nat.succ_mul, g.lineBytes_eq]
  exact Nat.mul_le_mul_right _ h

/-- The mask of a word is in the mask of its line. -/
theorem mask_le {offset : Nat} (h : offset < g.wordsPerLine) : offset * g.selWidth + g.selWidth ≤ 64 := by
  rw [← Nat.succ_mul]
  exact Nat.le_trans (Nat.mul_le_mul_right _ h) g.wordsPerLine_mul_selWidth_le

/-- A byte has room for every select bit. -/
theorem byte_fullSel (g : Geometry) : lowMask g.selWidth % 2 ^ 8 = g.fullSel :=
  Nat.mod_eq_of_lt (lowMask_lt (Nat.le_trans (Nat.min_le_left ..) g.selWidth_le))

/-- The write of some granules of one word of a line. -/
def wordWrite? (g : Geometry) (line offset datW sel : Nat) : Option DataWrite := do
  let data ← Block.fill? g.busBytes g.lineBytes datW
  let selWidth ← divide? g.dataWidth g.granularity
  let selected := sel &&& (← lowMask? selWidth) % 2 ^ 8
  return ⟨line, data, ← shiftLeft? selected (offset * selWidth)⟩

/-- Writing a word of a line is not refused. -/
theorem wordWrite?_eq (hpos : 0 < g.lineBytes) (line : Nat) {offset : Nat} (h : offset < g.wordsPerLine)
    (datW sel : Nat) : g.wordWrite? line offset datW sel = some (g.wordWrite line offset datW sel) := by
  have hfill : Block.fill? g.busBytes g.lineBytes datW = some (Block.fill g.busBytes g.wordsPerLine datW) := by
    rw [g.lineBytes_eq]
    exact Block.fill?_eq g.busBytes_le ..
  have hwidth : divide? g.dataWidth g.granularity = some g.selWidth := divide?_of_pos _ g.granularity_pos
  -- no select bit leaves the mask: those of the last word of a line end at bit 64 or below
  have hmask := mask_le h
  have hselect : (sel &&& g.fullSel) <<< (offset * g.selWidth) < 2 ^ 64 := by
    rw [g.and_fullSel, Nat.shiftLeft_eq]
    calc sel % 2 ^ g.selWidth * 2 ^ (offset * g.selWidth)
        < 2 ^ g.selWidth * 2 ^ (offset * g.selWidth) :=
          Nat.mul_lt_mul_of_pos_right (Nat.mod_lt _ (Nat.two_pow_pos _)) (Nat.two_pow_pos _)
      _ = 2 ^ (offset * g.selWidth + g.selWidth) := by rw [← Nat.pow_add, Nat.add_comm]
      _ ≤ 2 ^ 64 := Nat.pow_le_pow_right (by decide) hmask
  have hshift : offset * g.selWidth < 64 := by
    have := selWidth_pos hpos
    omega
  simp only [wordWrite?, hfill, hwidth, lowMask?_eq, byte_fullSel, shiftLeft?_of_lt hshift hselect, Option.bind_eq_bind,
    Option.bind_some, Option.pure_def, wordWrite]

end Geometry

namespace Cache

open Link

/-! ## What a cycle asks of the memories -/

/-- The ports of both memories on one edge. -/
structure Accesses where
  read : Option Nat := none
  tagWrite : Option (Nat × (TagEntry → TagEntry)) := none
  dataWrite : Option DataWrite := none

/-- What the cycle asks of the memories. -/
def accesses (c : Cache) (bus : Bus.Request) (link : Response) : Accesses :=
  match c.state with
  | .check => ⟨if c.loads bus then some (c.loadLine bus) else none, c.tagWrite bus, c.dataWrite bus⟩
  | .evict _ => {}
  | .refill _ =>
    match (Transfers.resolve c.linkRequest link).read with
    | none => {}
    | some block => {
        tagWrite := some (c.missed.line, fun _ => ⟨c.missed.tag, false⟩)
        dataWrite := some ⟨c.missed.line, Block.fit c.geometry.lineBytes block, c.data.fullMask⟩ }

/-- The lines are lines of the cache, and what is written is as long as a line. -/
structure Accesses.InRange (a : Accesses) (g : Geometry) : Prop where
  read : ∀ line ∈ a.read, line < g.lines
  tagWrite : ∀ w ∈ a.tagWrite, w.1 < g.lines
  dataWrite : ∀ w ∈ a.dataWrite, w.line < g.lines ∧ w.data.length = g.lineBytes

section Accesses

variable (c : Cache) (bus : Bus.Request) (link : Response)

/-- The edge clocks the memories with these accesses, and the line that was read is remembered. -/
theorem next_accesses :
    (c.next bus link).tags = c.tags.clock (c.accesses bus link).read (c.accesses bus link).tagWrite ∧
      (c.next bus link).data = c.data.clock (c.accesses bus link).read (c.accesses bus link).dataWrite ∧
      (c.next bus link).loadedLine = (c.accesses bus link).read.getD c.loadedLine := by
  cases hs : c.state with
  | check =>
      rw [next_check hs]
      simp only [accesses, hs]
      refine ⟨rfl, rfl, ?_⟩
      show (if c.loads bus then c.loadLine bus else c.loadedLine) = _
      cases c.loads bus <;> rfl
  | evict p =>
      rw [next_evict hs]
      simp only [accesses, hs]
      exact ⟨rfl, rfl, rfl⟩
  | refill p =>
      rw [next_refill hs]
      simp only [accesses, hs, refillEdge]
      cases (Transfers.resolve c.linkRequest link).read with
      | none => exact ⟨rfl, rfl, rfl⟩
      | some block => exact ⟨rfl, rfl, rfl⟩

/-- What a cycle accesses is within the memories. -/
theorem inRange_accesses : (c.accesses bus link).InRange c.geometry := by
  have hmissed : c.missed.line < c.geometry.lines := c.geometry.split_line_lt _
  have htarget : (c.target bus).line < c.geometry.lines := c.geometry.split_line_lt _
  unfold accesses
  cases c.state with
  | check =>
      refine ⟨fun line h => ?_, fun w h => ?_, fun w h => ?_⟩
      · obtain ⟨_, h⟩ := Option.mem_ite_none_right.mp h
        cases h
        exact Valid.loadLine_lt bus
      · obtain ⟨_, h⟩ := Option.mem_ite_none_right.mp h
        cases h
        exact htarget
      · obtain ⟨_, h⟩ := Option.mem_ite_none_right.mp h
        cases h
        exact ⟨htarget, (Block.length_fill ..).trans c.geometry.lineBytes_eq.symm⟩
  | evict p => exact ⟨nofun, nofun, nofun⟩
  | refill p =>
      cases (Transfers.resolve c.linkRequest link).read with
      | none => exact ⟨nofun, nofun, nofun⟩
      | some block =>
          refine ⟨nofun, fun w h => ?_, fun w h => ?_⟩
          · cases h
            exact hmissed
          · cases h
            exact ⟨hmissed, Block.length_fit ..⟩

end Accesses

/-! ## The cycle -/

section Checked

variable (c : Cache)

/-- The fields of the requested address. -/
def target? (bus : Bus.Request) : Option Address := c.geometry.layout.split? bus.adr

/-- The fields of the address that missed. -/
def missed? : Option Address := c.geometry.layout.split? c.sampled.adr

/-- The line to load. -/
def loadLine? (bus : Bus.Request) : Option Nat := do
  let target ← c.target? bus
  if c.acks bus && bus.cti == .increment then
    let next ← bus.bte.next? (← lowMask? c.geometry.layout.addrWidth) bus.adr
    return (← c.geometry.layout.split? next).line
  else
    return target.line

/-- What a cycle that serves requests asks of the memories. -/
def checkAccesses? (bus : Bus.Request) : Option Accesses := do
  let target ← c.target? bus
  let line ← c.loadLine? bus
  let read := if c.loads bus then some line else none
  if c.writes bus then
    let dataWrite ← c.geometry.wordWrite? target.line target.offset bus.datW bus.sel
    return ⟨read, some (target.line, fun _ => ⟨target.tag, true⟩), some dataWrite⟩
  else
    return ⟨read, none, none⟩

/-- What an accepted read beat asks of the memories. -/
def refillAccesses? (block : Block) : Option Accesses := do
  let missed ← c.missed?
  let dataWrite : DataWrite := ⟨missed.line, Block.fit c.geometry.lineBytes block, ← c.data.lineMask?⟩
  return { tagWrite := some (missed.line, fun _ => ⟨missed.tag, false⟩), dataWrite := some dataWrite }

/-- The bus side. -/
def busResponse? (bus : Bus.Request) : Option Bus.Response :=
  match c.state with
  | .check => do
    let target ← c.target? bus
    if c.acks bus then
      return ⟨true, ← Block.word? c.geometry.busBytes target.offset c.data.out⟩
    else
      return {}
  | .evict _ | .refill _ => some {}

/-- The link side. -/
def linkRequest? : Option Request :=
  match c.state with
  | .check => some {}
  | .evict p => do
    let missed ← c.missed?
    let addr ← c.geometry.layout.blockAddr? missed.line c.tags.out.tag
    let byteEnable ← lowMask? c.geometry.lineBytes
    return {
      command := if p.command then none else some ⟨addr, true, false⟩
      write := if p.beat then none else some ⟨c.data.out, byteEnable⟩ }
  | .refill p => do
    let missed ← c.missed?
    let addr ← c.geometry.layout.blockAddr? missed.line missed.tag
    return {
      command := if p.command then none else some ⟨addr, false, true⟩
      readReady := !p.beat }

/-- What a cycle with this offer on the link asks of the memories. -/
def accesses? (bus : Bus.Request) (offer : Request) (link : Response) : Option Accesses :=
  match c.state with
  | .check => c.checkAccesses? bus
  | .evict _ => some {}
  | .refill _ =>
    match (Transfers.resolve offer link).read with
    | none => some {}
    | some block => c.refillAccesses? block

/-- One cycle. The decisions, and the registers and counters that no refusable operation goes into, are those of
`Cache.next`. The line of the kept address is worked out after the edge as well, for the report of a change of
state. -/
def step? (bus : Bus.Request) (link : Response) : Option (Outputs × Cache) := do
  let response ← c.busResponse? bus
  let offer ← c.linkRequest?
  let accesses ← c.accesses? bus offer link
  let tags ← c.tags.clock? accesses.read accesses.tagWrite
  let data ← c.data.edge? accesses.read accesses.dataWrite
  let after : Cache := { c.next bus link with tags, data, loadedLine := accesses.read.getD c.loadedLine }
  let _ ← after.missed?
  return (⟨response, offer⟩, after)

/-! ## Nothing is refused -/

section Addresses

variable {c} (hpos : 0 < c.geometry.lineBytes)
include hpos

theorem target?_eq (bus : Bus.Request) : c.target? bus = some (c.target bus) :=
  c.geometry.layout.split?_eq (Geometry.offsetBits_lt hpos) _

theorem missed?_eq : c.missed? = some c.missed :=
  c.geometry.layout.split?_eq (Geometry.offsetBits_lt hpos) _

/-- The line that a request is about to read is there. -/
theorem loadLine?_eq (bus : Bus.Request) : c.loadLine? bus = some (c.loadLine bus) := by
  have hmask : c.geometry.layout.addrMask < 2 ^ 64 := lowMask_lt (Nat.min_le_right ..)
  have hnext : bus.bte.next? (lowMask c.geometry.layout.addrWidth) bus.adr = some (c.nextBeat bus) :=
    bus.bte.next?_eq hmask bus.adr
  simp only [loadLine?, loadLine, target?_eq hpos, lowMask?_eq, hnext,
    c.geometry.layout.split?_eq (Geometry.offsetBits_lt hpos), Option.bind_eq_bind, Option.bind_some, Option.pure_def]
  split <;> rfl

/-- Serving requests accesses the memories without being refused. -/
theorem checkAccesses?_eq (hs : c.state = .check) (bus : Bus.Request) (link : Response) :
    c.checkAccesses? bus = some (c.accesses bus link) := by
  have hoffset : (c.target bus).offset < c.geometry.wordsPerLine := c.geometry.split_offset_lt _
  have hword := Geometry.wordWrite?_eq hpos (c.target bus).line hoffset bus.datW bus.sel
  simp only [accesses, hs, checkAccesses?, target?_eq hpos, loadLine?_eq hpos, Option.bind_eq_bind, Option.bind_some,
    Option.pure_def]
  cases hw : c.writes bus with
  | true => rw [if_pos rfl, hword, Option.bind_some, dataWrite_of_writes hw, tagWrite, if_pos hw]
  | false => rw [if_neg (by decide), tagWrite, dataWrite, hw]; rfl

/-- What the cache drives on the link is there. -/
theorem linkRequest?_eq : c.linkRequest? = some c.linkRequest := by
  unfold linkRequest? linkRequest
  cases c.state with
  | check => rfl
  | evict p =>
      simp only [missed?_eq hpos, Layout.blockAddr?_eq, lowMask?_eq, Option.bind_eq_bind, Option.bind_some,
        Option.pure_def, evictRequest, Geometry.fullByteEnable]
  | refill p =>
      simp only [missed?_eq hpos, Layout.blockAddr?_eq, Option.bind_eq_bind, Option.bind_some, Option.pure_def,
        refillRequest]

end Addresses

namespace Valid

variable {c} (hv : c.Valid) (hpos : 0 < c.geometry.lineBytes)
include hv

/-- The memory of the contents has the shape of the geometry. -/
theorem shaped : c.data.Shaped c.geometry where
  size_eq := hv.data_size
  granuleBytes_eq := hv.granuleBytes_eq
  length_out := hv.length_out
  length_cell {line block} hpeek := by
    obtain ⟨hlt, _⟩ := Array.getElem?_eq_some_iff.mp hpeek
    obtain ⟨l, hl⟩ := hv.exists_line (Nat.lt_of_lt_of_eq hlt hv.data_size)
    have hdata := (line?_eq_some.mp hl).2.2
    rw [hpeek] at hdata
    exact Option.some.inj hdata ▸ hv.length_data hl

include hpos

/-- A hit reads a word inside the loaded line. -/
theorem busResponse?_eq (bus : Bus.Request) : c.busResponse? bus = some (c.busResponse bus) := by
  have hle := c.geometry.word_le (c.geometry.split_offset_lt bus.adr)
  rw [← hv.length_out] at hle
  have hword := Block.word?_eq c.geometry.busBytes_le hle
  unfold busResponse? busResponse
  cases c.state with
  | check =>
      simp only [target?_eq hpos, Option.bind_eq_bind, Option.bind_some, Option.pure_def]
      cases c.acks bus with
      | true => rw [if_pos rfl, if_pos rfl, target, hword, Option.bind_some]
      | false => rfl
  | evict p => rfl
  | refill p => rfl

/-- The accesses of any cycle are there. -/
theorem accesses?_eq (bus : Bus.Request) (link : Response) :
    c.accesses? bus c.linkRequest link = some (c.accesses bus link) := by
  cases hs : c.state with
  | check =>
      rw [accesses?, hs]
      exact checkAccesses?_eq hpos hs bus link
  | evict p => simp only [accesses?, accesses, hs]
  | refill p =>
      simp only [accesses?, accesses, hs]
      cases (Transfers.resolve c.linkRequest link).read with
      | none => rfl
      | some block =>
          simp only [refillAccesses?, missed?_eq hpos, hv.shaped.lineMask?_eq, Option.bind_eq_bind,
            Option.bind_some, Option.pure_def]

/-- **No operation of a cycle is refused**, and the cycle is the one without checks. -/
theorem step?_eq (bus : Bus.Request) (link : Response) : c.step? bus link = some (c.step bus link) := by
  obtain ⟨htags, hdata, hline⟩ := c.next_accesses bus link
  have hrange := c.inRange_accesses bus link
  have htags? : c.tags.clock? (c.accesses bus link).read (c.accesses bus link).tagWrite =
      some (c.next bus link).tags := by
    rw [htags]
    exact if_pos ⟨fun line h => hv.tags_size ▸ hrange.read line h, fun w h => hv.tags_size ▸ hrange.tagWrite w h⟩
  have hdata? : c.data.edge? (c.accesses bus link).read (c.accesses bus link).dataWrite =
      some (c.next bus link).data := by
    rw [hdata]
    exact hv.shaped.edge?_eq hrange.read hrange.dataWrite
  have hafter : (c.next bus link).missed? = some (c.next bus link).missed :=
    missed?_eq (by rw [geometry_next]; exact hpos)
  -- each checked part is now the part of the total cycle
  simp only [step?, hv.busResponse?_eq hpos, linkRequest?_eq hpos, hv.accesses?_eq hpos, htags?, hdata?, ← hline,
    hafter, Option.bind_eq_bind, Option.bind_some, Option.pure_def, step]

/-- The checks do refuse: a memory of lines that are longer than its read register has none that fits there. -/
example : ({ ofGeometry Simulator.tiny with data := ⟨⟨#[[1, 2, 3, 4, 5]], [1, 2, 3, 4]⟩, 1⟩ } : Cache).step?
    (.read 0 3) {} = none := rfl

end Valid

end Checked

/-! ## Every cycle of a run -/

/-- The memories and the register that names a line have the sizes of the geometry. -/
structure Sized (c : Cache) (g : Geometry) : Prop where
  tags_size : c.tags.size = g.lines
  data : c.data.Shaped g
  loadedLine_lt : c.loadedLine < g.lines

theorem Valid.sized {c : Cache} (hv : c.Valid) : c.Sized c.geometry :=
  ⟨hv.tags_size, hv.shaped, hv.loadedLine_lt⟩

/-- Nothing that happens in a cycle is out of range. -/
structure Cycle.InRange (k : Cycle) (g : Geometry) : Prop where
  /-- No checked operation is refused, and together they do what the cycle does. -/
  step?_eq : k.before.step? k.bus k.link = some (k.before.step k.bus k.link)
  /-- What the edge asks of the memories is in range, and it is what happens to them. -/
  accesses : (k.before.accesses k.bus k.link).InRange g
  tags_eq : k.after.tags =
    k.before.tags.clock (k.before.accesses k.bus k.link).read (k.before.accesses k.bus k.link).tagWrite
  data_eq : k.after.data =
    k.before.data.clock (k.before.accesses k.bus k.link).read (k.before.accesses k.bus k.link).dataWrite
  /-- The requested word lies inside the line in the read register. -/
  word : k.target.offset * g.busBytes + g.busBytes ≤ g.lineBytes
  /-- The mask of the requested word is a plain shift away, and it is inside a 64-bit mask. -/
  mask : k.target.offset * g.selWidth < 64 ∧ k.target.offset * g.selWidth + g.selWidth ≤ 64
  before : k.before.Sized g
  after : k.after.Sized g

/-- A cycle of a valid cache is in range. -/
theorem Cycle.inRange_of_valid {k : Cycle} (hv : k.before.Valid) (hpos : 0 < k.before.geometry.lineBytes) :
    k.InRange k.before.geometry where
  step?_eq := hv.step?_eq hpos ..
  accesses := k.before.inRange_accesses ..
  tags_eq := (k.before.next_accesses ..).1
  data_eq := (k.before.next_accesses ..).2.1
  word := k.before.geometry.word_le (k.before.geometry.split_offset_lt _)
  mask := by
    have hmask := k.before.geometry.mask_le (k.before.geometry.split_offset_lt k.bus.adr)
    have hwidth := Geometry.selWidth_pos hpos
    exact ⟨Nat.lt_of_lt_of_le (Nat.lt_add_of_pos_right hwidth) hmask, hmask⟩
  before := hv.sized
  after := geometry_next k.before k.bus k.link ▸ (hv.next k.bus k.link).sized

/-- The geometry of a run is that of the cache it starts with. -/
theorem geometry_of_mem_run {c : Cache} {inputs : List (Bus.Request × Response)} {k : Cycle}
    (h : k ∈ c.run inputs) : k.before.geometry = c.geometry :=
  invariant_of_mem_run (fun c' bus link hg => (geometry_next c' bus link).trans hg) rfl h

/-- **The cache never fails**, for every configuration that is accepted, every sequence of requests on the bus and
every sequence of answers of the store, with read beats of any length: in each cycle of a run from the cold cache on,
no shift, index, range or copy is out of range, and the memories keep their sizes. -/
theorem steps_in_range {cache : Config.Cache} {backing : Config.Backing} {g : Geometry}
    (h : Geometry.ofConfig cache backing = .ok g) (inputs : List (Bus.Request × Response)) :
    ∀ k ∈ (ofGeometry g).run inputs, k.InRange g := by
  intro k hk
  have hg : k.before.geometry = g := geometry_of_mem_run hk
  have hpos : 0 < k.before.geometry.lineBytes := hg ▸ Geometry.lineBytes_pos h
  exact hg ▸ Cycle.inRange_of_valid (valid_of_mem_run (valid_ofGeometry g) hk) hpos

/-- A write to the last word of the widest line, at the last 64-bit address: the mask of the line has 64 bits, and
those of the word are the highest. -/
theorem steps_in_range_last_word :
    ∃ g, Geometry.ofConfig { sizeBytes := 64, dataWidth := 64 } { addrWidth := 61, dataWidth := 512 } = .ok g ∧
      ∃ k ∈ (ofGeometry g).run [(.write (2 ^ 64 - 1) 7 255, {}), (.write (2 ^ 64 - 1) 7 255, {})],
        k.response.ack = true ∧ (k.before.accesses k.bus k.link).dataWrite.map DataWrite.mask = some (255 <<< 56) ∧
          k.before.step? k.bus k.link = some (k.before.step k.bus k.link) := by
  have hrun : ∃ g, Geometry.ofConfig { sizeBytes := 64, dataWidth := 64 } { addrWidth := 61, dataWidth := 512 } =
      .ok g ∧ ∃ k ∈ (ofGeometry g).run [(.write (2 ^ 64 - 1) 7 255, {}), (.write (2 ^ 64 - 1) 7 255, {})],
        k.response.ack = true ∧
          (k.before.accesses k.bus k.link).dataWrite.map DataWrite.mask = some (255 <<< 56) :=
    ⟨_, rfl, _, List.mem_cons_of_mem _ List.mem_cons_self, rfl, rfl⟩
  obtain ⟨g, hg, k, hk, hack, hmask⟩ := hrun
  exact ⟨g, hg, k, hk, hack, hmask, (steps_in_range hg _ k hk).step?_eq⟩

end Cache

end WriteBack
