import WriteBack.Proofs.Word

/-!
# WriteBack.Proofs.FlatMemory

Memories of bus words, as functions of the address. They say what transactions mean without a cache:
`Transaction.performAll` executes them one after the other. The memory that a run is checked against keeps its
words in a map, and means the same (`ShadowMemory.read_write`, `ShadowMemory.check_perform`).
-/

namespace WriteBack

namespace Geometry

variable (g : Geometry)

/-- A memory of bus words after a write of the granules in `sel`. Addresses count modulo the address width,
and select bits beyond the width of a word do not count. -/
def update (words : Nat → Nat) (adr sel word : Nat) : Nat → Nat := fun a =>
  if g.layout.clip a = g.layout.clip adr then mergeGranules g.granularity g.selWidth sel (words a) word
  else words a

/-- Words are written under their address modulo the number of words. -/
theorem update_clip (words : Nat → Nat) (adr sel word : Nat) :
    g.update words (g.layout.clip adr) sel word = g.update words adr sel word := by
  funext a
  simp only [update, Layout.clip_clip]

/-- Only the bits of a bus word are written. -/
theorem update_mod (words : Nat → Nat) (adr sel word : Nat) :
    g.update words adr sel (word % 2 ^ g.dataWidth) = g.update words adr sel word := by
  have hmerge (old : Nat) : mergeGranules g.granularity g.selWidth sel old (word % 2 ^ g.dataWidth) =
      mergeGranules g.granularity g.selWidth sel old word := by
    apply Nat.eq_of_testBit_eq
    intro i
    rw [testBit_mergeGranules g.granularity_pos, testBit_mergeGranules g.granularity_pos,
      ← g.dataWidth_eq_mul, Nat.testBit_mod_two_pow]
    by_cases hi : i < g.dataWidth
    · simp [hi]
    · simp [hi]
  funext a
  simp only [update, hmerge]

end Geometry

/-! ## What transactions mean -/

namespace Transaction

/-- What a transaction reads from a memory of words, one word per beat, and the memory after it. -/
def perform (g : Geometry) (words : Nat → Nat) : Transaction → List Nat × (Nat → Nat)
  | .read adr => ([words (g.layout.clip adr)], words)
  | .write adr data sel => ([], g.update words adr sel data)
  | .burstRead adr kind beats => ((kind.addresses g.layout.addrMask adr beats).map words, words)
  | .burstWrite adr kind data =>
    ([], ((kind.addresses g.layout.addrMask adr data.length).zip data).foldl
      (fun words w => g.update words w.1 g.fullSel w.2) words)

/-- What a list of transactions reads, executed one after the other, and the memory after them. -/
def performAll (g : Geometry) : (words : Nat → Nat) → List Transaction → List Nat × (Nat → Nat)
  | words, [] => ([], words)
  | words, t :: rest =>
    let (now, words) := t.perform g words
    let (later, words) := performAll g words rest
    (now ++ later, words)

end Transaction

/-! ## The memory that runs are checked against -/

namespace ShadowMemory

/-- An empty memory reads as zeros. -/
theorem read_empty (g : Geometry) : ({ geometry := g } : ShadowMemory).read = fun _ => 0 := by
  funext a
  simp [read]

/-- Words are read under their address modulo the number of words. -/
theorem read_clip (m : ShadowMemory) (adr : Nat) : m.read (m.geometry.layout.clip adr) = m.read adr := by
  simp only [read, Layout.clip_clip]

/-- The words after a write. -/
theorem read_write (m : ShadowMemory) (adr data sel : Nat) :
    (m.write adr data sel).read = m.geometry.update m.read adr sel data := by
  funext a
  have hlookup : (m.write adr data sel).read a =
      if m.geometry.layout.clip adr = m.geometry.layout.clip a then
        mergeBits (m.keep sel) (m.read adr) data % 2 ^ m.geometry.dataWidth
      else m.read a := by
    simp [write, read, Std.TreeMap.getD_insert]
  rw [hlookup, Geometry.update]
  by_cases h : m.geometry.layout.clip a = m.geometry.layout.clip adr
  · have hword : m.read a = m.read adr := by
      rw [← m.read_clip a, h, m.read_clip]
    rw [if_pos h.symm, if_pos h, mergeBits_eq_mergeGranules, hword]
  · rw [if_neg fun he => h he.symm, if_neg h]

theorem geometry_writeAll (m : ShadowMemory) (writes : List (Nat × Nat)) :
    (m.writeAll writes).geometry = m.geometry := by
  induction writes generalizing m with
  | nil => rfl
  | cons w writes ih => exact ih (m.write ..)

/-- Writing several words is writing one after the other. -/
theorem read_writeAll (m : ShadowMemory) (writes : List (Nat × Nat)) :
    (m.writeAll writes).read =
      writes.foldl (fun words w => m.geometry.update words w.1 m.geometry.fullSel w.2) m.read := by
  induction writes generalizing m with
  | nil => rfl
  | cons w writes ih =>
      rw [List.foldl_cons, ← m.read_write]
      exact ih (m.write w.1 w.2 m.geometry.fullSel)

/-- The words of the memory are what it expects. -/
theorem expectAll_map_read (m : ShadowMemory) (adrs : List Nat) :
    m.expectAll adrs (adrs.map m.read) = .ok () := by
  induction adrs with
  | nil => rfl
  | cons adr adrs ih =>
      rw [List.map_cons, expectAll, List.headD_cons, expect, if_pos rfl]
      exact ih

/-- **The check accepts what the transaction means** and goes on with the memory that it means. -/
theorem check_perform (m : ShadowMemory) (t : Transaction) :
    ∃ m', m.check t (t.perform m.geometry m.read).1 = .ok m' ∧ m'.geometry = m.geometry ∧
      m'.read = (t.perform m.geometry m.read).2 := by
  cases t with
  | read adr =>
      refine ⟨m, ?_, rfl, rfl⟩
      rw [check, Transaction.perform, List.headD_cons, expect, m.read_clip, if_pos rfl]
      rfl
  | write adr data sel => exact ⟨m.write adr data sel, rfl, rfl, m.read_write adr data sel⟩
  | burstRead adr kind beats =>
      refine ⟨m, ?_, rfl, rfl⟩
      rw [check, Transaction.perform, burst, m.expectAll_map_read]
      rfl
  | burstWrite adr kind data =>
      exact ⟨_, rfl, m.geometry_writeAll _, m.read_writeAll _⟩

end ShadowMemory

end WriteBack
