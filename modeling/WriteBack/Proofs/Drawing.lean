import Mathlib.Data.List.Forall2
import WriteBack.Proofs.Acceptance
import WriteBack.Proofs.CheckedStep
import WriteBack.Workload

/-!
# WriteBack.Proofs.Drawing

How traffic is drawn. A drawing is followed through its parts without a look at the state of the generator: `Draws`
says what every drawn value satisfies, and `Succeeds` that a drawing with checks is not refused and draws the same as
one without. The checked drawing is spelled out as a machine does it: in 64-bit words, with masks, with a loop that
adds the transactions of a burst one by one. For every geometry of an accepted configuration it succeeds
(`generate?_eq`).
-/

namespace WriteBack

/-! ## Words -/

namespace Word

/-- A product. -/
def multiply? (a b : Nat) : Option Nat := if a * b < 2 ^ 64 then some (a * b) else none

/-- A remainder. -/
def remainder? (n d : Nat) : Option Nat := if d = 0 then none else some (n % d)

/-- The next number, or the largest word. -/
def saturatingSucc (n : Nat) : Nat := min (n + 1) (2 ^ 64 - 1)

end Word

namespace Workload

/-! ## Following a drawing -/

section Drawing

variable {α β : Type}

/-- What is drawn satisfies `P`, whatever the state of the generator. -/
def Draws (P : α → Prop) (d : StateM XorShift α) : Prop := ∀ s, P (d.run s).run.1

theorem Draws.pure {P : α → Prop} {a : α} (h : P a) : Draws P (pure a) := fun _ => h

/-- What is drawn from drawn values has what each step gives. -/
theorem Draws.bind {P : α → Prop} {Q : β → Prop} {d : StateM XorShift α} {f : α → StateM XorShift β}
    (h : Draws P d) (hf : ∀ a, P a → Draws Q (f a)) : Draws Q (d >>= f) :=
  fun s => hf _ (h s) (d.run s).run.2

/-- What is drawn has every weaker property. -/
theorem Draws.mono {P Q : α → Prop} {d : StateM XorShift α} (h : Draws P d) (hPQ : ∀ a, P a → Q a) : Draws Q d :=
  fun s => hPQ _ (h s)

theorem draws_true (d : StateM XorShift α) : Draws (fun _ => True) d := fun _ => trivial

/-- A word drawn below a bound is below it. -/
theorem draws_below {bound : Nat} (h : 0 < bound) : Draws (· < bound) (modifyGet (·.below bound)) :=
  fun _ => Nat.mod_lt _ h

/-- What each of some drawings draws, all of them in a row draw. -/
theorem Draws.mapM {R : β → α → Prop} {f : β → StateM XorShift α} {xs : List β} (h : ∀ x ∈ xs, Draws (R x) (f x)) :
    Draws (List.Forall₂ R xs) (xs.mapM f) := by
  induction xs with
  | nil => exact .pure .nil
  | cons x xs ih =>
      obtain ⟨hx, hxs⟩ := List.forall_mem_cons.mp h
      rw [List.mapM_cons]
      exact hx.bind fun y hy => (ih hxs).bind fun ys hys => .pure (.cons hy hys)

/-- A drawing that is repeated. -/
theorem Draws.replicate {P : α → Prop} {d : StateM XorShift α} (h : Draws P d) (n : Nat) :
    Draws (fun xs => xs.length = n ∧ ∀ x ∈ xs, P x) ((List.replicate n ()).mapM fun _ => d) := by
  induction n with
  | zero => exact .pure ⟨rfl, fun _ hx => nomatch hx⟩
  | succ n ih =>
      rw [List.replicate_succ, List.mapM_cons]
      refine h.bind fun x hx => ih.bind fun xs hxs => .pure ⟨?_, List.forall_mem_cons.mpr ⟨hx, hxs.2⟩⟩
      rw [List.length_cons, hxs.1]

/-- A drawing with checks is never refused and draws the same as one without. -/
def Succeeds (d? : StateT XorShift Option α) (d : StateM XorShift α) : Prop := ∀ s, d?.run s = some (d.run s).run

theorem Succeeds.pure (a : α) : Succeeds (pure a) (pure a) := fun _ => rfl

theorem succeeds_next : Succeeds (modifyGet XorShift.next) (modifyGet XorShift.next) := fun _ => rfl

/-- The checks after a drawing may rely on what it draws. -/
theorem Succeeds.bind {P : α → Prop} {d? : StateT XorShift Option α} {d : StateM XorShift α}
    {f? : α → StateT XorShift Option β} {f : α → StateM XorShift β} (h : Succeeds d? d) (hd : Draws P d)
    (hf : ∀ a, P a → Succeeds (f? a) (f a)) : Succeeds (d? >>= f?) (d >>= f) := by
  intro s
  rw [StateT.run_bind, h s]
  exact hf _ (hd s) (d.run s).run.2

/-- A check that passes. -/
theorem Succeeds.check {a : α} {check : Option α} {f? : α → StateT XorShift Option β} {d : StateM XorShift β}
    (ha : check = some a) (h : Succeeds (f? a) d) : Succeeds (StateT.lift check >>= f?) d := by
  subst ha
  exact h

/-- Drawing for each element of a list is not refused when drawing for one is not. -/
theorem Succeeds.mapM {f? : β → StateT XorShift Option α} {f : β → StateM XorShift α}
    (h : ∀ x, Succeeds (f? x) (f x)) (xs : List β) : Succeeds (xs.mapM f?) (xs.mapM f) := by
  induction xs with
  | nil => exact .pure []
  | cons x xs ih =>
      rw [List.mapM_cons, List.mapM_cons]
      exact (h x).bind (draws_true _) fun y _ => ih.bind (draws_true _) fun ys _ => .pure (y :: ys)

end Drawing

/-! ## Drawing with checks -/

/-- The mask of the select bits, as a byte. -/
def fullSel? (g : Geometry) : Option Nat := do
  let selWidth ← Word.divide? g.dataWidth g.granularity
  return (← Word.lowMask? selWidth) % 2 ^ 8

/-- The number of words that addresses are drawn from, computed in 64-bit words. -/
def span? (g : Geometry) (factor : Nat) : Option Nat := do
  let addrMask ← Word.lowMask? g.layout.addrWidth
  let words ← Word.multiply? (← Word.multiply? g.lines g.wordsPerLine) factor
  return max (min words (Word.saturatingSucc addrMask)) 1

section Checked

variable (dataMask fullSel span : Nat)

/-- Draws a word of the bus width, by a mask. -/
def drawWord? : StateT XorShift Option Nat := do
  let x ← modifyGet XorShift.next
  return x.toNat &&& dataMask

/-- Draws a number below a bound. -/
def drawBelow? (bound : Nat) : StateT XorShift Option Nat := fun s => s.below? bound

/-- Transaction `i` of sequential traffic. -/
def drawSequential? (i : Nat) : StateT XorShift Option Transaction := do
  let adr ← Word.remainder? (i / 2) span
  if i % 2 = 0 then return .write adr (← drawWord? dataMask) fullSel else return .read adr

/-- A transaction of random traffic. The select bits are those of a byte. -/
def drawRandom? : StateT XorShift Option Transaction := do
  let adr ← drawBelow? span
  if (← drawBelow? 2) = 0 then return .read adr
  else
    let sel ← modifyGet XorShift.next
    let data ← drawWord? dataMask
    return .write adr data (max (sel.toNat % 2 ^ 8 &&& fullSel) 1)

/-- The start, the kind and the words of a burst. -/
def drawBurst? : StateT XorShift Option (Nat × BurstKind × List Nat) := do
  let kind ← kinds[← drawBelow? kinds.length]?
  let adr ← drawBelow? span
  let data ← (List.replicate (burstBeats kind) ()).mapM fun _ => drawWord? dataMask
  return (adr, kind, data)

/-- Draws bursts until there are as many transactions as are left to draw: a last burst may not be read back. -/
def drawBursts? : (left : Nat) → StateT XorShift Option (List Transaction)
  | 0 => return []
  | 1 => do
    let (adr, kind, data) ← drawBurst? dataMask span
    return [.burstWrite adr kind data]
  | left + 2 => do
    let (adr, kind, data) ← drawBurst? dataMask span
    let rest ← drawBursts? left
    return .burstWrite adr kind data :: .burstRead adr kind (burstBeats kind) :: rest

end Checked

/-- Draws `count` transactions. -/
def draw? (g : Geometry) (w : Workload) (count : Nat) : StateT XorShift Option (List Transaction) := do
  let dataMask ← Word.lowMask? g.dataWidth
  let fullSel ← fullSel? g
  match w with
  | .sequential =>
    let span ← span? g 2
    (List.range count).mapM (drawSequential? dataMask fullSel span)
  | .random =>
    let span ← span? g 4
    (List.replicate count ()).mapM fun _ => drawRandom? dataMask fullSel span
  | .burst =>
    let span ← span? g 4
    drawBursts? dataMask span count

/-- `count` transactions for a cache, drawn from a seed in checked arithmetic. -/
def generate? (w : Workload) (g : Geometry) (count : Nat) (seed : UInt64) : Option (List Transaction) :=
  ((draw? g w count).run (.ofSeed seed)).map Prod.fst

/-! ## The span -/

section Span

variable {g : Geometry}

/-- There is always an address to draw. -/
theorem span_pos (g : Geometry) {factor : Nat} (h : 0 < factor) : 0 < span g factor :=
  Nat.lt_min.mpr ⟨Nat.mul_pos h (Nat.mul_pos g.lines_pos g.wordsPerLine_pos), Nat.two_pow_pos _⟩

/-- The mask of the addresses is one less than their number. -/
theorem addrMask_add_one (g : Geometry) : g.layout.addrMask + 1 = 2 ^ g.layout.addrWidth := by
  rw [Layout.addrMask, lowMask_add_one, Nat.min_eq_left g.layout.width_le]

/-- The words of an accepted cache are far fewer than a 64-bit word counts. -/
theorem cacheWords_lt {cache : Config.Cache} {backing : Config.Backing} (h : Geometry.ofConfig cache backing = .ok g) :
    8 * g.cacheWords < 2 ^ 64 := by
  have hc := Geometry.consistent_of_ofConfig h
  have hr := Geometry.requested_of_ofConfig h
  have hwidth : 8 ≤ g.dataWidth := by
    have := hc.granularity.2
    have := hr.dataWidth_eq
    omega
  have hsize : 8 * g.sizeBytes = g.cacheWords * g.dataWidth := by
    rw [g.sizeBytes_eq, g.backingWidth_eq, ← Nat.mul_assoc, Geometry.cacheWords]
  have hle : g.cacheWords * 8 ≤ g.cacheWords * g.dataWidth := Nat.mul_le_mul_left _ hwidth
  have := hc.bits.2
  have := hr.sizeBytes_eq
  omega

/-- The span is computed without an overflow. -/
theorem span?_eq {cache : Config.Cache} {backing : Config.Backing} (h : Geometry.ofConfig cache backing = .ok g)
    {factor : Nat} (hpos : 0 < factor) (hle : factor ≤ 4) : span? g factor = some (span g factor) := by
  have hwords := cacheWords_lt h
  have hfactor : g.cacheWords * factor ≤ g.cacheWords * 4 := Nat.mul_le_mul_left _ hle
  have hspan : 1 ≤ span g factor := span_pos g hpos
  have hmin : min (g.cacheWords * factor) (Word.saturatingSucc g.layout.addrMask) = span g factor := by
    rw [Word.saturatingSucc, addrMask_add_one, span, Nat.mul_comm factor]
    omega
  rw [span?, Word.lowMask?_eq, ← Layout.addrMask, Word.multiply?, ← Geometry.cacheWords, if_pos (by omega),
    Option.bind_eq_bind, Option.bind_some, Option.bind_some, Word.multiply?, if_pos (by omega), Option.bind_some, hmin,
    Nat.max_eq_left hspan]
  rfl

end Span

/-! ## Nothing is refused -/

section Succeeds

variable {g : Geometry}

/-- The mask of a whole word is there. -/
theorem fullSel?_eq (g : Geometry) : fullSel? g = some g.fullSel := by
  rw [fullSel?, Word.divide?_of_pos _ g.granularity_pos, Option.bind_eq_bind, Option.bind_some, ← Geometry.selWidth,
    Word.lowMask?_eq, Option.bind_some, g.byte_fullSel]
  rfl

/-- Drawing a word is not refused. -/
theorem succeeds_drawWord (g : Geometry) : Succeeds (drawWord? g.dataMask) (drawWord g) := by
  refine succeeds_next.bind (draws_true _) fun x _ => ?_
  rw [Geometry.dataMask, and_lowMask, lowBits_of_le g.dataWidth_le]
  exact .pure _

/-- Drawing below a bound is not refused unless nothing is below it. -/
theorem succeeds_drawBelow {bound : Nat} (h : 0 < bound) : Succeeds (drawBelow? bound) (modifyGet (·.below bound)) :=
  fun _ => if_neg (Nat.ne_of_gt h)

/-- Drawing a transaction of a sequential workload is not refused. -/
theorem succeeds_drawSequential (g : Geometry) (i : Nat) :
    Succeeds (drawSequential? g.dataMask g.fullSel (span g 2) i) (drawSequential g i) := by
  have hspan : span g 2 ≠ 0 := Nat.ne_of_gt (span_pos g (by decide))
  refine .check (if_neg hspan) ?_
  unfold drawSequential
  dsimp only
  split
  · exact (succeeds_drawWord g).bind (draws_true _) fun data _ => .pure _
  · exact .pure _

/-- Nor is drawing one of a random workload. -/
theorem succeeds_drawRandom (g : Geometry) :
    Succeeds (drawRandom? g.dataMask g.fullSel (span g 4)) (drawRandom g) := by
  have hspan : 0 < span g 4 := span_pos g (by decide)
  refine (succeeds_drawBelow hspan).bind (draws_true _) fun adr _ => ?_
  refine (succeeds_drawBelow (by decide)).bind (draws_true _) fun choice _ => ?_
  split
  · exact .pure _
  · refine succeeds_next.bind (draws_true _) fun sel _ => (succeeds_drawWord g).bind (draws_true _) fun data _ => ?_
    -- a byte has room for every select bit
    have hwidth := g.selWidth_le
    rw [Geometry.fullSel, and_lowMask, lowBits_of_le (by omega), Nat.mod_mod_of_dvd _ (Nat.pow_dvd_pow 2 hwidth)]
    exact .pure _

/-- A burst that is drawn with checks, in front of what is drawn after it. -/
theorem succeeds_drawBurst_bind {f? : Nat × BurstKind × List Nat → StateT XorShift Option (List Transaction)}
    {f : List Transaction → StateM XorShift (List Transaction)}
    (h : ∀ adr kind data, data.length = burstBeats kind →
      Succeeds (f? (adr, kind, data)) (f [.burstWrite adr kind data, .burstRead adr kind data.length])) :
    Succeeds (drawBurst? g.dataMask (span g 4) >>= f?) (drawBurst g >>= f) := by
  have hspan : 0 < span g 4 := span_pos g (by decide)
  simp only [drawBurst?, drawBurst, bind_assoc, pure_bind]
  refine (succeeds_drawBelow (by decide)).bind (draws_below (by decide)) fun i hi => ?_
  have hkind : kinds[i]? = some (kinds.getD i .linear) := by
    rw [List.getD_eq_getElem?_getD, List.getElem?_eq_getElem hi, Option.getD_some]
  refine .check hkind ?_
  refine (succeeds_drawBelow hspan).bind (draws_true _) fun adr _ => ?_
  have hwords := succeeds_drawWord g
  refine (Succeeds.mapM (fun _ => hwords) _).bind ((draws_true _).replicate _) fun data hdata => ?_
  exact h adr _ data hdata.1

/-- Traffic of bursts is drawn burst by burst. -/
theorem draw_burst_add_two (g : Geometry) (count : Nat) :
    draw g .burst (count + 2) = do
      let burst ← drawBurst g
      let rest ← draw g .burst count
      return burst ++ rest := by
  have hrounds : (count + 2 + 1) / 2 = (count + 1) / 2 + 1 := by omega
  simp only [draw, drawBurst, hrounds, List.replicate_succ, List.mapM_cons, bind_assoc, pure_bind, List.flatten_cons,
    List.cons_append, List.nil_append, List.take_succ_cons]

/-- A single transaction of a burst workload is the first of a drawn pair. -/
theorem draw_burst_one (g : Geometry) : draw g .burst 1 = do return (← drawBurst g).take 1 := by
  simp [draw, drawBurst]

/-- Nor is drawing a burst workload of any length. -/
theorem succeeds_drawBursts (g : Geometry) (count : Nat) :
    Succeeds (drawBursts? g.dataMask (span g 4) count) (draw g .burst count) := by
  induction count using drawBursts?.induct with
  | case1 => exact .pure []
  | case2 =>
      rw [draw_burst_one]
      exact succeeds_drawBurst_bind fun adr kind data _ => .pure _
  | case3 count ih =>
      rw [draw_burst_add_two]
      refine succeeds_drawBurst_bind fun adr kind data hlen => ih.bind (draws_true _) fun rest _ => ?_
      rw [hlen]
      exact .pure _

end Succeeds

/-- **Traffic is drawn without an overflow, a division by zero or an index out of range**, and it is the same as
without checks. -/
theorem generate?_eq {g : Geometry} {cache : Config.Cache} {backing : Config.Backing}
    (h : Geometry.ofConfig cache backing = .ok g) (w : Workload) (count : Nat) (seed : UInt64) :
    w.generate? g count seed = some (w.generate g count seed) := by
  have hsucceeds : Succeeds (draw? g w count) (draw g w count) := by
    refine .check (Word.lowMask?_eq g.dataWidth) (.check (fullSel?_eq g) ?_)
    cases w with
    | sequential => exact .check (span?_eq h (by decide) (by decide)) (.mapM (succeeds_drawSequential g) _)
    | random => exact .check (span?_eq h (by decide) (by decide)) (.mapM (fun _ => succeeds_drawRandom g) _)
    | burst => exact .check (span?_eq h (by decide) (by decide)) (succeeds_drawBursts g count)
  rw [generate?, hsucceeds]
  rfl

end Workload

end WriteBack
