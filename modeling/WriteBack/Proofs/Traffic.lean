import WriteBack.Proofs.Beats
import WriteBack.Proofs.Drawing

/-!
# WriteBack.Proofs.Traffic

What traffic is drawn, whatever the generator says. Addresses, words and select bits are in range for the geometry
(`Transaction.InRange`). Sequential traffic and bursts come in pairs of a write and the read that reads it back
(`SequentialPair`, `BurstPair`), so their reads never meet a word that was not written before (`InPairs.written`).
-/

namespace WriteBack

/-! ## Transactions of a geometry -/

namespace Transaction

/-- The address of the first beat. -/
def start : Transaction → Nat
  | .read adr | .write adr _ _ | .burstRead adr _ _ | .burstWrite adr _ _ => adr

/-- The words that a transaction brings. -/
def data : Transaction → List Nat
  | .write _ word _ => [word]
  | .burstWrite _ _ words => words
  | .read _ | .burstRead .. => []

/-- The select bits that a transaction brings. -/
def sel? : Transaction → Option Nat
  | .write _ _ sel => some sel
  | .read _ | .burstRead .. | .burstWrite .. => none

/-- The address lies among the first `words` words and fits the bus, as do the words and the select bits. -/
structure InRange (g : Geometry) (words : Nat) (t : Transaction) : Prop where
  start_le : t.start ≤ g.layout.addrMask
  start_lt : t.start < words
  data_le : ∀ word ∈ t.data, word ≤ g.dataMask
  /-- At least one granule is selected, and none that the word does not have. -/
  sel : ∀ sel ∈ t.sel?, sel ≠ 0 ∧ sel &&& g.fullSel = sel

/-- The second transaction reads nothing but words that the first one writes, every granule of them. The first one
does not read. -/
structure ReadsBack (g : Geometry) (first second : Transaction) : Prop where
  first_writes : ∀ a, Beat.read a ∉ first.toBeats g
  second_reads : ∀ a, Beat.read a ∈ second.toBeats g → ∃ word, Beat.write a word g.fullSel ∈ first.toBeats g

/-- A transaction that does not read has no beat that does. -/
theorem read_notMem_toBeats {g : Geometry} {t : Transaction} (h : t.reads = false) (a : Nat) :
    Beat.read a ∉ t.toBeats g := by
  intro hmem
  have hwe := t.we_toBeats g _ hmem
  rw [h] at hwe
  cases hwe

/-- A read of a word that was just written. -/
theorem readsBack_single (g : Geometry) (adr data : Nat) : ReadsBack g (.write adr data g.fullSel) (.read adr) where
  first_writes := read_notMem_toBeats rfl
  second_reads a h := by
    obtain rfl : a = g.layout.clip adr := Beat.read.inj (List.mem_singleton.mp h)
    exact ⟨data % 2 ^ g.dataWidth, List.mem_singleton.mpr rfl⟩

/-- A burst visits the same words whether it writes or reads. -/
theorem readsBack_burst (g : Geometry) (adr : Nat) (kind : BurstKind) (data : List Nat) :
    ReadsBack g (.burstWrite adr kind data) (.burstRead adr kind data.length) where
  first_writes := read_notMem_toBeats rfl
  second_reads a h := by
    have hlen := kind.length_addresses g.layout.addrMask adr data.length
    simp only [toBeats] at h ⊢
    generalize kind.addresses g.layout.addrMask adr data.length = adrs at h hlen ⊢
    obtain ⟨a', hmem, he⟩ := List.mem_map.mp h
    obtain rfl : a' = a := Beat.read.inj he
    obtain ⟨i, hi, rfl⟩ := List.mem_iff_getElem.mp hmem
    refine ⟨data[i] % 2 ^ g.dataWidth, List.mem_iff_getElem.mpr ⟨i, ?_, List.getElem_zipWith ..⟩⟩
    rw [List.length_zipWith]
    omega

end Transaction

namespace Workload

/-! ## Pairs -/

/-- A word that is written and read back. The addresses go through the span and start again. -/
inductive SequentialPair (g : Geometry) (k : Nat) : Transaction → Transaction → Prop
  | intro (data : Nat) : data ≤ g.dataMask →
      SequentialPair g k (.write (k % span g 2) data g.fullSel) (.read (k % span g 2))

/-- A burst that is written and read back, once around a wrapping one. -/
inductive BurstPair (g : Geometry) : Transaction → Transaction → Prop
  | intro (adr : Nat) (kind : BurstKind) (data : List Nat) : adr < span g 4 →
      data.length = kind.wrapLength.getD 4 → (∀ word ∈ data, word ≤ g.dataMask) →
      BurstPair g (.burstWrite adr kind data) (.burstRead adr kind data.length)

/-- The transactions come in pairs, and pair number `k` is a `pair k`. The second of the last pair may be missing. -/
def InPairs (pair : Nat → Transaction → Transaction → Prop) (ts : List Transaction) : Prop :=
  ∀ k, 2 * k < ts.length → ∃ first second, pair k first second ∧ ts[2 * k]? = some first ∧
    (2 * k + 1 < ts.length → ts[2 * k + 1]? = some second)

section InPairs

variable {pair : Nat → Transaction → Transaction → Prop} {ts : List Transaction}

/-- Each transaction is the first or the second of its pair. -/
theorem InPairs.cases (h : InPairs pair ts) {i : Nat} {t : Transaction} (hi : ts[i]? = some t) :
    ∃ k first second, pair k first second ∧ ts[2 * k]? = some first ∧
      (i = 2 * k ∧ t = first ∨ i = 2 * k + 1 ∧ t = second) := by
  obtain ⟨hlt, _⟩ := List.getElem?_eq_some_iff.mp hi
  obtain ⟨first, second, hpair, hfirst, hsecond⟩ := h (i / 2) (by omega)
  refine ⟨i / 2, first, second, hpair, hfirst, ?_⟩
  rcases Nat.mod_two_eq_zero_or_one i with heven | hodd
  · have hk : 2 * (i / 2) = i := by omega
    rw [hk, hi] at hfirst
    exact .inl ⟨hk.symm, Option.some.inj hfirst⟩
  · have hk : 2 * (i / 2) + 1 = i := by omega
    rw [hk, hi] at hsecond
    exact .inr ⟨hk.symm, Option.some.inj (hsecond hlt)⟩

/-- What holds of both transactions of every pair holds of all of them. -/
theorem InPairs.forall_mem {P : Transaction → Prop} (h : InPairs pair ts)
    (hpair : ∀ k first second, pair k first second → P first ∧ P second) : ∀ t ∈ ts, P t := by
  intro t ht
  obtain ⟨i, hi⟩ := List.mem_iff_getElem?.mp ht
  obtain ⟨k, first, second, hk, _, ⟨_, rfl⟩ | ⟨_, rfl⟩⟩ := h.cases hi
  · exact (hpair k t second hk).1
  · exact (hpair k first t hk).2

/-- Where every pair reads back what it writes, a word is written before it is read. -/
theorem InPairs.written {g : Geometry} (h : InPairs pair ts)
    (hpair : ∀ k first second, pair k first second → Transaction.ReadsBack g first second) {i a : Nat}
    {t : Transaction} (hi : ts[i]? = some t) (ha : Beat.read a ∈ t.toBeats g) :
    ∃ j < i, ∃ earlier word, ts[j]? = some earlier ∧ Beat.write a word g.fullSel ∈ earlier.toBeats g := by
  obtain ⟨k, first, second, hk, hfirst, ⟨rfl, rfl⟩ | ⟨rfl, rfl⟩⟩ := h.cases hi
  · exact absurd ha ((hpair k t second hk).first_writes a)
  · obtain ⟨word, hword⟩ := (hpair k first t hk).second_reads a ha
    exact ⟨2 * k, Nat.lt_succ_self _, first, word, hfirst, hword⟩

/-- Two more transactions in front. -/
theorem InPairs.cons_cons {pair : Transaction → Transaction → Prop} {first second : Transaction}
    (hpair : pair first second) (h : InPairs (fun _ => pair) ts) :
    InPairs (fun _ => pair) (first :: second :: ts) := by
  rintro (_ | k) hk
  · exact ⟨first, second, hpair, rfl, fun _ => rfl⟩
  · simp only [List.length_cons] at hk
    obtain ⟨first', second', hpair', hfirst, hsecond⟩ := h k (by omega)
    refine ⟨first', second', hpair', hfirst, fun hlt => hsecond ?_⟩
    simp only [List.length_cons] at hlt
    omega

end InPairs

/-! ## What is drawn -/

section Draws

variable {g : Geometry}

/-- A drawn word fits the bus. -/
theorem draws_drawWord (g : Geometry) : Draws (· ≤ g.dataMask) (drawWord g) := by
  intro s
  have hlt := Nat.mod_lt s.next.1.toNat (Nat.two_pow_pos g.dataWidth)
  rw [Geometry.dataMask, lowMask_of_le g.dataWidth_le]
  exact Nat.le_sub_one_of_lt hlt

/-- A sequential workload writes at even places, and reads the same address at odd ones. -/
theorem draws_drawSequential (g : Geometry) (i : Nat) :
    Draws (fun t => if i % 2 = 0 then ∃ data ≤ g.dataMask, t = .write (i / 2 % span g 2) data g.fullSel
      else t = .read (i / 2 % span g 2)) (drawSequential g i) := by
  unfold drawSequential
  dsimp only
  split
  · exact (draws_drawWord g).bind fun data hdata => .pure ⟨data, hdata, rfl⟩
  · exact .pure rfl

/-- A sequential workload has the length that was asked for and comes in pairs. -/
theorem draws_sequential (g : Geometry) (count : Nat) :
    Draws (fun ts => ts.length = count ∧ InPairs (SequentialPair g) ts) (draw g .sequential count) := by
  refine (Draws.mapM fun i _ => draws_drawSequential g i).mono fun ts hts => ?_
  have hlen : ts.length = count := hts.length_eq.symm.trans List.length_range
  refine ⟨hlen, fun k hk => ?_⟩
  have hat (i : Nat) (hi : i < ts.length) := hts.get (by rw [List.length_range]; omega) hi
  simp only [List.get_eq_getElem, List.getElem_range] at hat
  have hwrite := hat (2 * k) hk
  rw [if_pos (Nat.mul_mod_right ..), Nat.mul_div_cancel_left _ (by decide)] at hwrite
  obtain ⟨data, hdata, hfirst⟩ := hwrite
  refine ⟨_, _, .intro data hdata, List.getElem?_eq_some_iff.mpr ⟨hk, hfirst⟩, fun hlt => ?_⟩
  have hread := hat (2 * k + 1) hlt
  rw [if_neg (by omega), show (2 * k + 1) / 2 = k by omega] at hread
  exact List.getElem?_eq_some_iff.mpr ⟨hlt, hread⟩

/-- An address that is drawn is an address of the bus, and it lies within a few cache sizes of zero. -/
theorem inRange_of_lt_span {t : Transaction} {factor : Nat} (hstart : t.start < span g factor)
    (hdata : ∀ word ∈ t.data, word ≤ g.dataMask) (hsel : ∀ sel ∈ t.sel?, sel ≠ 0 ∧ sel &&& g.fullSel = sel) :
    t.InRange g (factor * g.cacheWords) where
  start_le := by
    rw [← Nat.lt_succ_iff, Nat.succ_eq_add_one, addrMask_add_one]
    exact Nat.lt_of_lt_of_le hstart (Nat.min_le_right ..)
  start_lt := Nat.lt_of_lt_of_le hstart (Nat.min_le_left ..)
  data_le := hdata
  sel := hsel

/-- A read below the span of a workload is in range. -/
theorem inRange_read {adr factor : Nat} (h : adr < span g factor) :
    (Transaction.read adr).InRange g (factor * g.cacheWords) :=
  inRange_of_lt_span h (fun _ h => nomatch h) (fun _ h => nomatch h)

/-- A write below the span of a workload is in range, if it selects something and nothing that is not there. -/
theorem inRange_write {adr factor data sel : Nat} (h : adr < span g factor) (hdata : data ≤ g.dataMask)
    (hne : sel ≠ 0) (hsel : sel &&& g.fullSel = sel) :
    (Transaction.write adr data sel).InRange g (factor * g.cacheWords) := by
  refine inRange_of_lt_span h (List.forall_mem_singleton.mpr hdata) ?_
  rintro _ ⟨⟩
  exact ⟨hne, hsel⟩

/-- There is at least one select bit. -/
theorem one_le_fullSel (hpos : 0 < g.lineBytes) : 1 ≤ g.fullSel := by
  have hwidth : 0 < g.selWidth := Geometry.selWidth_pos hpos
  have hle := g.selWidth_le
  have hpow : 2 ^ 1 ≤ 2 ^ g.selWidth := Nat.pow_le_pow_right (by decide) hwidth
  rw [Geometry.fullSel, lowMask_of_le (by omega)]
  omega

/-- Both transactions of a sequential pair are in range. -/
theorem inRange_sequential (hpos : 0 < g.lineBytes) {k : Nat} {first second : Transaction}
    (h : SequentialPair g k first second) :
    first.InRange g (2 * g.cacheWords) ∧ second.InRange g (2 * g.cacheWords) := by
  obtain ⟨data, hdata⟩ := h
  have hadr : k % span g 2 < span g 2 := Nat.mod_lt k (span_pos g (by decide))
  have hsel := one_le_fullSel hpos
  exact ⟨inRange_write hadr hdata (by omega) (Nat.and_self _), inRange_read hadr⟩

/-- Both transactions of a burst pair are in range. -/
theorem inRange_burst {first second : Transaction} (h : BurstPair g first second) :
    first.InRange g (4 * g.cacheWords) ∧ second.InRange g (4 * g.cacheWords) := by
  obtain ⟨adr, kind, data, hadr, _, hdata⟩ := h
  exact ⟨inRange_of_lt_span hadr hdata (fun _ h => nomatch h),
    inRange_of_lt_span hadr (fun _ h => nomatch h) (fun _ h => nomatch h)⟩

/-- A random workload has the length that was asked for, all of it in range. -/
theorem draws_random (hpos : 0 < g.lineBytes) (count : Nat) :
    Draws (fun ts => ts.length = count ∧ ∀ t ∈ ts, t.InRange g (4 * g.cacheWords)) (draw g .random count) := by
  refine Draws.replicate ?_ count
  refine (draws_below (span_pos g (by decide))).bind fun adr hadr => (draws_true _).bind fun choice _ => ?_
  split
  · exact .pure (inRange_read hadr)
  · refine (draws_true _).bind fun sel _ => (draws_drawWord g).bind fun data hdata => .pure ?_
    have hwidth : g.selWidth ≤ 64 := Nat.le_trans g.selWidth_le (by decide)
    have hsel : max (sel.toNat % 2 ^ g.selWidth) 1 < 2 ^ g.selWidth := by
      have hfull := one_le_fullSel hpos
      rw [Geometry.fullSel, lowMask_of_le hwidth] at hfull
      have hmod := Nat.mod_lt sel.toNat (Nat.two_pow_pos g.selWidth)
      omega
    refine inRange_write hadr hdata (by omega) ?_
    rw [Geometry.fullSel, and_lowMask, lowBits_of_le hwidth, Nat.mod_eq_of_lt hsel]

/-- Bursts are drawn in pairs. -/
theorem draws_drawBurst (g : Geometry) :
    Draws (fun burst => ∃ first second, BurstPair g first second ∧ burst = [first, second]) (drawBurst g) := by
  refine (draws_true _).bind fun i _ => (draws_below (span_pos g (by decide))).bind fun adr hadr => ?_
  exact ((draws_drawWord g).replicate _).bind fun data hdata =>
    .pure ⟨_, _, .intro adr _ data hadr hdata.1 hdata.2, rfl⟩

/-- A burst workload has the length that was asked for and comes in pairs. -/
theorem draws_bursts (g : Geometry) (count : Nat) :
    Draws (fun ts => ts.length = count ∧ InPairs (fun _ => BurstPair g) ts) (draw g .burst count) := by
  induction count using drawBursts?.induct with
  | case1 => exact .pure ⟨rfl, fun k hk => absurd hk (Nat.not_lt_zero (2 * k))⟩
  | case2 =>
      rw [draw_burst_one]
      refine (draws_drawBurst g).bind ?_
      rintro _ ⟨first, second, hpair, rfl⟩
      refine .pure ⟨rfl, fun k hk => ?_⟩
      obtain rfl : k = 0 := by rw [List.length_take] at hk; omega
      exact ⟨first, second, hpair, rfl, fun hlt => absurd hlt (by simp)⟩
  | case3 count ih =>
      rw [draw_burst_add_two]
      refine (draws_drawBurst g).bind ?_
      rintro _ ⟨first, second, hpair, rfl⟩
      refine ih.bind fun rest hrest => .pure ?_
      exact ⟨congrArg (· + 2) hrest.1, hrest.2.cons_cons hpair⟩

end Draws

/-! ## Generated traffic -/

/-- The cache sizes that the addresses of a pattern lie within. -/
def factor : Workload → Nat
  | .sequential => 2
  | .random | .burst => 4

/-- `count` transactions of a pattern. -/
structure WellFormed (g : Geometry) (w : Workload) (count : Nat) (ts : List Transaction) : Prop where
  length_eq : ts.length = count
  inRange : ∀ t ∈ ts, t.InRange g (w.factor * g.cacheWords)
  sequential : w = .sequential → InPairs (SequentialPair g) ts
  burst : w = .burst → InPairs (fun _ => BurstPair g) ts
  /-- But for random traffic, a word that is read was written before, every granule of it. -/
  written : w ≠ .random → ∀ (i : Nat) (t : Transaction) (a : Nat), ts[i]? = some t → Beat.read a ∈ t.toBeats g →
    ∃ j < i, ∃ (earlier : Transaction) (word : Nat), ts[j]? = some earlier ∧
      Beat.write a word g.fullSel ∈ earlier.toBeats g

/-- Every generated workload is well formed. -/
theorem wellFormed_generate {g : Geometry} (hpos : 0 < g.lineBytes) (w : Workload) (count : Nat) (seed : UInt64) :
    WellFormed g w count (w.generate g count seed) := by
  cases w with
  | sequential =>
      obtain ⟨hlen, hpairs⟩ := draws_sequential g count (.ofSeed seed)
      exact {
        length_eq := hlen
        inRange := hpairs.forall_mem fun _ _ _ => inRange_sequential hpos
        sequential _ := hpairs
        burst h := nomatch h
        written _ _ _ _ := hpairs.written fun _ _ _ ⟨data, _⟩ => Transaction.readsBack_single g _ data }
  | random =>
      obtain ⟨hlen, hrange⟩ := draws_random hpos count (.ofSeed seed)
      exact {
        length_eq := hlen
        inRange := hrange
        sequential h := nomatch h
        burst h := nomatch h
        written h := absurd rfl h }
  | burst =>
      obtain ⟨hlen, hpairs⟩ := draws_bursts g count (.ofSeed seed)
      exact {
        length_eq := hlen
        inRange := hpairs.forall_mem fun _ _ _ => inRange_burst
        sequential h := nomatch h
        burst _ := hpairs
        written _ _ _ _ := hpairs.written fun _ _ _ ⟨adr, kind, data, _, _, _⟩ =>
          Transaction.readsBack_burst g adr kind data }

/-- **Generated traffic is well formed**, for every configuration that is accepted, every pattern, every number of
transactions and every seed, and no operation that draws it is refused. -/
theorem traffic_well_formed {cache : Config.Cache} {backing : Config.Backing} {g : Geometry}
    (h : Geometry.ofConfig cache backing = .ok g) (w : Workload) (count : Nat) (seed : UInt64) :
    w.generate? g count seed = some (w.generate g count seed) ∧ WellFormed g w count (w.generate g count seed) :=
  ⟨generate?_eq h w count seed, wellFormed_generate (Geometry.lineBytes_pos h) w count seed⟩

/-- Three transactions of bursts from the seed zero, for addresses of 64 bits: the last burst is not read back. -/
theorem traffic_well_formed_odd :
    ∃ g, Geometry.ofConfig { sizeBytes := 64, dataWidth := 64 } { addrWidth := 61, dataWidth := 512 } = .ok g ∧
      burst.generate? g 3 0 = some (burst.generate g 3 0) ∧ (burst.generate g 3 0).length = 3 ∧
      ∃ adr kind data, adr < 32 ∧ data.length = kind.wrapLength.getD 4 ∧
        (burst.generate g 3 0)[2]? = some (.burstWrite adr kind data) := by
  have hg : ∃ g, Geometry.ofConfig { sizeBytes := 64, dataWidth := 64 } { addrWidth := 61, dataWidth := 512 } =
      .ok g ∧ span g 4 = 32 := ⟨_, rfl, by decide⟩
  obtain ⟨g, hg, hspan⟩ := hg
  obtain ⟨hchecked, hformed⟩ := traffic_well_formed hg burst 3 0
  obtain ⟨_, _, ⟨adr, kind, data, hadr, hlen, _⟩, hfirst, _⟩ := hformed.burst rfl 1 (by rw [hformed.length_eq]; decide)
  exact ⟨g, hg, hchecked, hformed.length_eq, adr, kind, data, hspan ▸ hadr, hlen, hfirst⟩

end Workload

end WriteBack
