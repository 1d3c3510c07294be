import WriteBack.Geometry

/-!
# WriteBack.Proofs.Acceptance

Which configurations have a geometry. `Geometry.checks` lists what is asked of a configuration, as facts about its
numbers, in the order in which it is asked; `Check.Decides` says that an answer is the one that such a list gives.
Every condition of the code is one entry in front of the list of the rest (`Decides.check`), so the lists of
`Layout.ofCounts` and of `Geometry.ofConfig` grow with them. From the list follow the configurations that are
accepted, the reason of every refusal, and the relations between the numbers of a geometry
(`accepts_consistent`).
-/

namespace WriteBack

/-! ## Checks in order -/

/-- What is asked of a request, and the reason for refusing it otherwise. -/
structure Check where
  holds : Prop
  reason : GeometryError

namespace Check

variable {α β : Type} {c : Check} {checks rest : List Check} {answer : Except GeometryError α}

/-- The answer goes through the checks in their order: one that fails gives its reason, and when none is left there
is a result. -/
def Decides : List Check → Except GeometryError α → Prop
  | [], answer => ∃ a, answer = .ok a
  | c :: rest, answer => (c.holds → Decides rest answer) ∧ (¬ c.holds → answer = .error c.reason)

/-- The reason is that of the first check that does not hold. -/
def FailsWith (checks : List Check) (e : GeometryError) : Prop :=
  ∃ earlier c later, checks = earlier ++ c :: later ∧ (∀ c' ∈ earlier, c'.holds) ∧ ¬ c.holds ∧ c.reason = e

/-- There is a result when every check holds. -/
theorem Decides.exists_ok_iff (h : Decides checks answer) :
    (∃ a, answer = .ok a) ↔ ∀ c ∈ checks, c.holds := by
  induction checks with
  | nil => exact ⟨fun _ => nofun, fun _ => h⟩
  | cons c rest ih =>
      rw [List.forall_mem_cons]
      by_cases hc : c.holds
      · rw [ih (h.1 hc)]
        exact ⟨fun hall => ⟨hc, hall⟩, And.right⟩
      · rw [h.2 hc]
        exact ⟨nofun, fun hall => absurd hall.1 hc⟩

/-- The answer fails with the reason of the first check that does not hold. -/
theorem Decides.eq_error_iff (h : Decides checks answer) (e : GeometryError) :
    answer = .error e ↔ FailsWith checks e := by
  induction checks with
  | nil =>
      obtain ⟨a, rfl⟩ := h
      refine ⟨nofun, ?_⟩
      rintro ⟨earlier, _, _, hnil, _⟩
      exact absurd hnil.symm (List.append_ne_nil_of_right_ne_nil _ (List.cons_ne_nil _ _))
  | cons c rest ih =>
      by_cases hc : c.holds
      · rw [ih (h.1 hc)]
        constructor
        · rintro ⟨earlier, c', later, rfl, hearlier, hfails, he⟩
          exact ⟨c :: earlier, c', later, rfl, List.forall_mem_cons.mpr ⟨hc, hearlier⟩, hfails, he⟩
        · rintro ⟨earlier, c', later, hsplit, hearlier, hfails, he⟩
          cases earlier with
          | nil => exact absurd ((List.cons.inj hsplit).1 ▸ hc) hfails
          | cons c₀ earlier =>
              exact ⟨earlier, c', later, (List.cons.inj hsplit).2, (List.forall_mem_cons.mp hearlier).2,
                hfails, he⟩
      · rw [h.2 hc, Except.error.injEq]
        constructor
        · intro he
          exact ⟨[], c, rest, rfl, nofun, hc, he⟩
        · rintro ⟨earlier, c', later, hsplit, hearlier, hfails, he⟩
          cases earlier with
          | nil => exact (List.cons.inj hsplit).1 ▸ he
          | cons c₀ earlier =>
              exact absurd ((List.cons.inj hsplit).1 ▸ (List.forall_mem_cons.mp hearlier).1) hc

/-- A condition that leads to a refusal. -/
theorem Decides.check {bad : Prop} [Decidable bad] {answer : ¬ bad → Except GeometryError α}
    (hc : c.holds ↔ ¬ bad) (h : ∀ hgood, Decides rest (answer hgood)) :
    Decides (c :: rest) (if hbad : bad then .error c.reason else answer hbad) := by
  refine ⟨fun hholds => ?_, fun hfails => ?_⟩
  · rw [dif_neg (hc.mp hholds)]
    exact h _
  · rw [dif_pos (Decidable.not_not.mp (mt hc.mpr hfails))]

/-- A condition without which there is a refusal. -/
theorem Decides.guard {good : Prop} [Decidable good] {answer : good → Except GeometryError α}
    (hc : c.holds ↔ good) (h : ∀ hgood, Decides rest (answer hgood)) :
    Decides (c :: rest) (if hgood : good then answer hgood else .error c.reason) := by
  refine ⟨fun hholds => ?_, fun hfails => ?_⟩
  · rw [dif_pos (hc.mp hholds)]
    exact h _
  · rw [dif_neg (mt hc.mpr hfails)]

/-- What is made of a result does not change whether there is one. -/
theorem Decides.map {answer' : Except GeometryError β} (h : Decides checks answer)
    (herror : ∀ e, answer = .error e → answer' = .error e)
    (hok : ∀ a, answer = .ok a → ∃ b, answer' = .ok b) : Decides checks answer' := by
  induction checks with
  | nil =>
      obtain ⟨a, ha⟩ := h
      exact hok a ha
  | cons c rest ih => exact ⟨fun hc => ih (h.1 hc), fun hc => herror _ (h.2 hc)⟩

end Check

open Check

/-! ## The checks of a layout -/

namespace Layout

/-- What a layout asks for: counts that are powers of two, and addresses that fit a word and hold both low fields. -/
def checks (addrWidth words lines : Nat) : List Check :=
  [⟨∃ k, words = 2 ^ k, .notPowerOfTwo .wordsPerLine words⟩,
    ⟨∃ k, lines = 2 ^ k, .notPowerOfTwo .lineCount lines⟩,
    ⟨addrWidth ≤ 64, .addressTooWide addrWidth⟩,
    ⟨words.log2 + lines.log2 ≤ addrWidth, .addressTooNarrow addrWidth words.log2 lines.log2⟩]

/-- The layout of an address is decided by its own checks. -/
theorem decides_ofCounts (addrWidth words lines : Nat) :
    Decides (checks addrWidth words lines) (ofCounts addrWidth words lines) := by
  refine Decides.check (by simp [isPow2_iff]) fun _ => ?_
  refine Decides.check (by simp [isPow2_iff]) fun _ => ?_
  refine Decides.guard Iff.rfl fun hw => ?_
  refine Decides.guard Iff.rfl fun hf => ?_
  exact ⟨_, rfl⟩

end Layout

/-! ## The checks of a geometry -/

namespace Geometry

variable (cache : Config.Cache) (backing : Config.Backing)

/-- What a geometry asks of a configuration, in the order in which it is asked. -/
def checks : List Check :=
  let size := cache.sizeBytes.toNat
  let width := cache.dataWidth.toNat
  let granule := cache.granularity.toNat
  let block := backing.dataWidth.toNat
  let blockAddrWidth := backing.addrWidth.toNat
  let offsetBits := (block / width).log2
  let lineBits := (8 * size / block).log2
  [⟨∃ k, size = 2 ^ k, .invalidCacheSize size⟩,
    ⟨(∃ k, width = 2 ^ k) ∧ width ≤ 64, .invalidDataWidth width⟩,
    ⟨block ≠ 0 ∧ width ∣ block, .invalidRatio block width⟩,
    ⟨(∃ k, block = 2 ^ k) ∧ block ≤ 512, .invalidBackingWidth block⟩,
    ⟨(∃ k, granule = 2 ^ k) ∧ 8 ≤ granule ∧ granule ≤ width, .invalidGranularity granule width⟩,
    ⟨8 * size < 2 ^ 64, .cacheTooLarge size⟩,
    ⟨block ≤ 8 * size, .cacheTooSmall size block⟩,
    ⟨blockAddrWidth + offsetBits < 2 ^ 32, .addressTooWide blockAddrWidth⟩,
    ⟨blockAddrWidth + offsetBits ≤ 64, .addressTooWide (blockAddrWidth + offsetBits)⟩,
    ⟨offsetBits + lineBits ≤ blockAddrWidth + offsetBits,
      .addressTooNarrow (blockAddrWidth + offsetBits) offsetBits lineBits⟩]

/-- A power of two over a smaller one is a power of two. -/
theorem exists_two_pow_div {m n : Nat} (hm : ∃ k, m = 2 ^ k) (hn : ∃ k, n = 2 ^ k) (h : n ≤ m) :
    ∃ k, m / n = 2 ^ k := by
  obtain ⟨j, rfl⟩ := hm
  obtain ⟨k, rfl⟩ := hn
  exact ⟨j - k, Nat.pow_div ((Nat.pow_le_pow_iff_right (by decide)).mp h) (by decide)⟩

/-- The geometry of a configuration answers as its checks do. By the time the layout is built its counts are known
to be powers of two, so only its address width can be refused. -/
theorem decides_ofConfig : Decides (checks cache backing) (ofConfig cache backing) := by
  unfold checks ofConfig
  dsimp only
  rw [Nat.mul_comm 8]
  refine Decides.check (by simp [isPow2_iff]) fun hs => ?_
  refine Decides.check (by simp [isPow2_iff]) fun hw => ?_
  refine Decides.check (by simp [Nat.dvd_iff_mod_eq_zero]) fun hr => ?_
  refine Decides.check (by simp [isPow2_iff]) fun hb => ?_
  refine Decides.check (by simp [isPow2_iff]) fun hg => ?_
  refine Decides.check (by simp) fun _ => ?_
  have hblock : backing.dataWidth.toNat ≠ 0 ∧ backing.dataWidth.toNat % cache.dataWidth.toNat = 0 := by
    simpa using hr
  refine Decides.check (by simp [Nat.div_eq_zero_iff, hblock.1]) fun hlines => ?_
  refine Decides.check (by simp) fun _ => ?_
  have hwidth : ∃ k, cache.dataWidth.toNat = 2 ^ k := by
    simp only [not_or, Bool.not_eq_false, isPow2_iff] at hw
    exact hw.1
  have hpow : ∃ k, backing.dataWidth.toNat = 2 ^ k := by
    simp only [not_or, Bool.not_eq_false, isPow2_iff] at hb
    exact hb.1
  have hbits : ∃ k, cache.sizeBytes.toNat * 8 = 2 ^ k := by
    obtain ⟨k, hk⟩ := isPow2_iff.mp (by simpa using hs : isPow2 cache.sizeBytes.toNat = true)
    exact ⟨k + 3, by rw [hk, Nat.pow_add]⟩
  have hwords := exists_two_pow_div hpow hwidth
    (Nat.le_of_dvd (Nat.pos_of_ne_zero hblock.1) (Nat.dvd_of_mod_eq_zero hblock.2))
  have hcount := exists_two_pow_div hbits hpow
    (Nat.le_of_not_lt fun hlt => hlines (Nat.div_eq_of_lt hlt))
  have hlayout (addrWidth : Nat) := ((Layout.decides_ofCounts addrWidth _ _).1 hwords).1 hcount
  refine (hlayout _).map (fun e he => ?_) fun layout hok => ?_
  · split
    · next e' he' =>
      cases he.symm.trans he'
      rfl
    · next layout' hok' =>
      rw [he] at hok'
      cases hok'
  · split
    · next e' he' =>
      rw [hok] at he'
      cases he'
    · exact ⟨_, rfl⟩

/-! ## What is accepted -/

/-- The numbers of a configuration fit together. -/
structure Consistent : Prop where
  size : ∃ k, cache.sizeBytes.toNat = 2 ^ k
  dataWidth : (∃ k, cache.dataWidth.toNat = 2 ^ k) ∧ cache.dataWidth.toNat ≤ 64
  backingWidth : (∃ k, backing.dataWidth.toNat = 2 ^ k) ∧ backing.dataWidth.toNat ≤ 512 ∧
    cache.dataWidth.toNat ∣ backing.dataWidth.toNat
  granularity : (∃ k, cache.granularity.toNat = 2 ^ k) ∧ 8 ≤ cache.granularity.toNat ∧
    cache.granularity.toNat ≤ cache.dataWidth.toNat
  /-- The cache holds a line, and its bits are counted by a 64-bit word. -/
  bits : backing.dataWidth.toNat ≤ 8 * cache.sizeBytes.toNat ∧ 8 * cache.sizeBytes.toNat < 2 ^ 64
  /-- A block address holds the line, and with the offset it fits a 64-bit word. -/
  addrWidth : (8 * cache.sizeBytes.toNat / backing.dataWidth.toNat).log2 ≤ backing.addrWidth.toNat ∧
    backing.addrWidth.toNat + (backing.dataWidth.toNat / cache.dataWidth.toNat).log2 ≤ 64

/-- What the checks ask for, all together. -/
theorem forall_checks_iff : (∀ c ∈ checks cache backing, c.holds) ↔ Consistent cache backing := by
  simp only [checks, List.forall_mem_cons, List.not_mem_nil, false_implies, implies_true, and_true]
  constructor
  · rintro ⟨hs, hw, hr, hb, hg, hlarge, hsmall, _, hwide, hnarrow⟩
    exact ⟨hs, hw, ⟨hb.1, hb.2, hr.2⟩, hg, ⟨hsmall, hlarge⟩, by omega, hwide⟩
  · rintro ⟨hs, hw, ⟨hpow, hle, hdvd⟩, hg, ⟨hsmall, hlarge⟩, hnarrow, hwide⟩
    have hne : backing.dataWidth.toNat ≠ 0 := by
      obtain ⟨k, hk⟩ := hpow
      rw [hk]
      exact Nat.ne_of_gt (Nat.two_pow_pos k)
    exact ⟨hs, hw, ⟨hne, hdvd⟩, ⟨hpow, hle⟩, hg, hlarge, hsmall, by omega, hwide, by omega⟩

/-! ## The numbers of a geometry -/

variable {cache backing} {g : Geometry}

/-- The geometry that a configuration asks for. -/
structure Requested (g : Geometry) (cache : Config.Cache) (backing : Config.Backing) : Prop where
  sizeBytes_eq : g.sizeBytes = cache.sizeBytes.toNat
  dataWidth_eq : g.dataWidth = cache.dataWidth.toNat
  granularity_eq : g.granularity = cache.granularity.toNat
  backingWidth_eq : g.backingWidth = backing.dataWidth.toNat
  dirtyInit_eq : g.dirtyInit = cache.dirtyInit
  blockBits_eq : g.layout.blockBits = backing.addrWidth.toNat

/-- An accepted configuration gets the widths and sizes that it requests. -/
theorem requested_of_ofConfig (h : ofConfig cache backing = .ok g) : g.Requested cache backing := by
  unfold ofConfig at h
  dsimp only at h
  iterate 8
    split at h
    · cases h
  split at h
  · cases h
  · next layout hlayout =>
    obtain ⟨hwidth, hwords, _⟩ := Layout.ofCounts_eq_ok hlayout
    cases h
    refine ⟨rfl, rfl, rfl, rfl, rfl, ?_⟩
    have hoffset : (backing.dataWidth.toNat / cache.dataWidth.toNat).log2 = layout.offsetBits := by
      rw [hwords, Nat.log2_two_pow]
    show layout.addrWidth - layout.offsetBits = _
    rw [hwidth, hoffset, Nat.add_sub_cancel]

/-- What is accepted is consistent. -/
theorem consistent_of_ofConfig (h : ofConfig cache backing = .ok g) : Consistent cache backing :=
  (forall_checks_iff cache backing).mp ((decides_ofConfig cache backing).exists_ok_iff.mp ⟨g, h⟩)

/-- The lines of an accepted configuration are not empty. -/
theorem lineBytes_pos (h : ofConfig cache backing = .ok g) : 0 < g.lineBytes := by
  have hc := consistent_of_ofConfig h
  have hblock := (requested_of_ofConfig h).backingWidth_eq
  have hpos : 0 < backing.dataWidth.toNat := by
    obtain ⟨k, hk⟩ := hc.backingWidth.1
    rw [hk]
    exact Nat.two_pow_pos k
  have hle := Nat.le_of_dvd hpos hc.backingWidth.2.2
  have := hc.granularity.2
  have := g.backingWidth_eq_lineBytes
  omega

/-- The size of the memory, as 64-bit words count it: both steps stop at the largest word. -/
theorem memoryBytes_eq_saturating (h : ofConfig cache backing = .ok g) :
    g.memoryBytes =
      min ((if g.layout.blockBits < 64 then 2 ^ g.layout.blockBits else 2 ^ 64 - 1) * g.lineBytes) (2 ^ 64 - 1) := by
  unfold memoryBytes
  split
  · rfl
  · next hwide =>
    have hpow : 2 ^ 64 ≤ 2 ^ g.layout.blockBits := Nat.pow_le_pow_right (by decide) (Nat.not_lt.mp hwide)
    have hline := lineBytes_pos h
    rw [Nat.min_eq_right, Nat.min_eq_right (Nat.le_mul_of_pos_right _ hline)]
    exact Nat.le_trans (Nat.le_trans (Nat.sub_le ..) hpow) (Nat.le_mul_of_pos_right _ hline)

/-- The numbers of a geometry fit together, and they are the requested ones. -/
structure Derived (g : Geometry) (cache : Config.Cache) (backing : Config.Backing) : Prop where
  requested : g.Requested cache backing
  lines_pow : ∃ k, g.lines = 2 ^ k
  words_pow : ∃ k, g.wordsPerLine = 2 ^ k
  size : g.lines * g.lineBytes = g.sizeBytes
  line : g.wordsPerLine * g.busBytes = g.lineBytes
  word : g.selWidth * g.granuleBytes = g.busBytes
  selWidth_le : g.selWidth ≤ 8
  /-- The granules of a line are those of its words, and a 64-bit mask has a bit for each of them. -/
  granules : g.wordsPerLine * g.selWidth = g.lineBytes / g.granuleBytes ∧ g.lineBytes / g.granuleBytes ≤ 64
  addrWidth : g.layout.blockBits = backing.addrWidth.toNat ∧
    backing.addrWidth.toNat = g.layout.tagBits + g.layout.lineBits
  memory : g.memoryBytes = min (2 ^ backing.addrWidth.toNat * g.lineBytes) (2 ^ 64 - 1)
  /-- The product above, computed in 64-bit words that stop at the largest one. -/
  memory_saturates : g.memoryBytes =
    min ((if backing.addrWidth.toNat < 64 then 2 ^ backing.addrWidth.toNat else 2 ^ 64 - 1) * g.lineBytes)
      (2 ^ 64 - 1)

/-- The quantities of an accepted configuration follow from its widths and sizes. -/
theorem derived_of_ofConfig (h : ofConfig cache backing = .ok g) : g.Derived cache backing := by
  have hr := requested_of_ofConfig h
  exact {
    requested := hr
    lines_pow := ⟨_, g.lines_eq⟩
    words_pow := ⟨_, g.wordsPerLine_eq⟩
    size := g.lines_mul_lineBytes
    line := g.lineBytes_eq.symm
    word := g.selWidth_mul_granuleBytes
    selWidth_le := g.selWidth_le
    granules := ⟨g.lineBytes_div_granuleBytes.symm, g.lineBytes_div_granuleBytes ▸ g.wordsPerLine_mul_selWidth_le⟩
    addrWidth := ⟨hr.blockBits_eq, by rw [← hr.blockBits_eq, g.layout.tagBits_add]⟩
    memory := by rw [memoryBytes, hr.blockBits_eq]
    memory_saturates := hr.blockBits_eq ▸ memoryBytes_eq_saturating h }

/-- **Exactly the consistent configurations are accepted.** A refused one is refused with the reason of the first
check that it does not pass, which is never that a count is no power of two; an accepted one has a geometry whose
numbers fit together. -/
theorem accepts_consistent (cache : Config.Cache) (backing : Config.Backing) :
    ((∃ g, ofConfig cache backing = .ok g) ↔ Consistent cache backing) ∧
      (∀ e, ofConfig cache backing = .error e ↔ FailsWith (checks cache backing) e) ∧
      (∀ what n, ofConfig cache backing ≠ .error (.notPowerOfTwo what n)) ∧
      ∀ g, ofConfig cache backing = .ok g → g.Derived cache backing := by
  have hd := decides_ofConfig cache backing
  refine ⟨hd.exists_ok_iff.trans (forall_checks_iff cache backing), hd.eq_error_iff, fun what n h => ?_,
    fun _ => derived_of_ofConfig⟩
  obtain ⟨earlier, c, later, hsplit, _, _, hreason⟩ := (hd.eq_error_iff _).mp h
  have hmem : c ∈ checks cache backing := hsplit ▸ List.mem_append_right _ List.mem_cons_self
  simp only [checks, List.mem_cons, List.not_mem_nil, or_false] at hmem
  rcases hmem with rfl | rfl | rfl | rfl | rfl | rfl | rfl | rfl | rfl | rfl <;> cases hreason

/-- The widest line and the widest address, in a cache of a single line: 64 granules, and a memory whose size is
beyond a 64-bit word. -/
theorem accepts_consistent_widest :
    ∃ g, ofConfig { sizeBytes := 64, dataWidth := 64 } { addrWidth := 61, dataWidth := 512 } = .ok g ∧
      g.lines = 1 ∧ g.lineBytes / g.granuleBytes = 64 ∧ g.memoryBytes = 2 ^ 64 - 1 := by
  obtain ⟨haccepts, _, _, hderived⟩ :=
    accepts_consistent { sizeBytes := 64, dataWidth := 64 } { addrWidth := 61, dataWidth := 512 }
  obtain ⟨g, hg⟩ := haccepts.mpr
    ⟨⟨6, rfl⟩, ⟨⟨6, rfl⟩, by decide⟩, ⟨⟨9, rfl⟩, by decide, by decide⟩, ⟨⟨3, rfl⟩, by decide, by decide⟩,
      by decide, by decide⟩
  have hd := hderived g hg
  have hline : g.lineBytes = 64 := by rw [lineBytes, hd.requested.backingWidth_eq]; rfl
  have hgranule : g.granuleBytes = 1 := by rw [granuleBytes, hd.requested.granularity_eq]; rfl
  have hsize : g.sizeBytes = 64 := hd.requested.sizeBytes_eq
  have hlines := hd.size
  rw [hline, hsize] at hlines
  refine ⟨g, hg, by omega, by rw [hline, hgranule], ?_⟩
  rw [hd.memory, hline]
  rfl

end Geometry

end WriteBack
