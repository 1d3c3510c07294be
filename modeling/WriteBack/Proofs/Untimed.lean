import WriteBack.Cache
import WriteBack.Link.Monitor
import WriteBack.Proofs.Beats
import WriteBack.Proofs.Word

/-!
# WriteBack.Proofs.Untimed

A write-back cache without a clock. It takes one beat at a time and is done with it at once: there are no
states, no handshakes and no latencies. `Untimed.step` looks the line of the beat up, makes room for the
block if it is not there, fetches it, and then reads or writes a word of it. What the clocked cache does in
any number of cycles is measured against this.
-/

namespace WriteBack

open Link

/-! ## What does not depend on time -/

/-- An operation without the cycle that completed it. -/
def Link.Operation.timeless (op : Operation) : Operation := { op with cycle := 0 }

/-- The counters without those that count cycles. -/
def Counters.timeless (n : Counters) : Counters := { n with cycles := 0, stallCycles := 0, rereads := 0 }

namespace Counters

/-- Counts an acknowledged beat: as a hit, or as a retry after a miss. -/
def countBeat (n : Counters) : (we hit : Bool) → Counters
  | false, true => { n with readHits := n.readHits + 1 }
  | true, true => { n with writeHits := n.writeHits + 1 }
  | false, false => { n with readRetries := n.readRetries + 1 }
  | true, false => { n with writeRetries := n.writeRetries + 1 }

def countMiss (n : Counters) : Counters := { n with misses := n.misses + 1 }

/-- Counts a block of `bytes` bytes that went to the store. -/
def countEviction (n : Counters) (bytes : Nat) : Counters :=
  { n with evictions := n.evictions + 1, bytesWritten := n.bytesWritten + bytes }

/-- Counts a block of `bytes` bytes that came from the store. -/
def countRefill (n : Counters) (bytes : Nat) : Counters :=
  { n with refills := n.refills + 1, bytesRead := n.bytesRead + bytes }

end Counters

/-! ## A word of a block -/

namespace Block

/-- The block with another word at a position. -/
def setWord (size index word : Nat) (block : Block) : Block :=
  block.take (index * size) ++ ofNat size word ++ block.drop ((index + 1) * size)

/-- Setting a word keeps the length of a block. -/
theorem length_setWord {size count index : Nat} (h : index < count) (word : Nat) {block : Block}
    (hblock : block.length = count * size) : (setWord size index word block).length = count * size := by
  have hle : (index + 1) * size ≤ count * size := Nat.mul_le_mul_right _ h
  rw [Nat.succ_mul] at hle
  simp only [setWord, List.length_append, List.length_take, List.length_drop, length_ofNat, hblock,
    Nat.succ_mul]
  omega

/-- The bytes of the word are new, and the others stay. -/
theorem getD_setWord {size count index : Nat} (h : index < count) (word : Nat) {block : Block}
    (hblock : block.length = count * size) (i p : Nat) (hp : p < size) :
    (setWord size index word block).getD (i * size + p) 0 =
      if i = index then (ofNat size word).getD p 0 else block.getD (i * size + p) 0 := by
  have hle : (index + 1) * size ≤ count * size := Nat.mul_le_mul_right _ h
  rw [Nat.succ_mul] at hle
  have htake : (block.take (index * size)).length = index * size := by
    rw [List.length_take]
    omega
  have hfront : (block.take (index * size) ++ ofNat size word).length = index * size + size := by
    rw [List.length_append, htake, length_ofNat]
  simp only [setWord, List.getD_eq_getElem?_getD, List.getElem?_append, hfront, htake, Nat.succ_mul,
    List.getElem?_drop, List.getElem?_take]
  rcases Nat.lt_trichotomy i index with hlt | rfl | hgt
  · have hbefore : (i + 1) * size ≤ index * size := Nat.mul_le_mul_right _ hlt
    rw [Nat.succ_mul] at hbefore
    rw [if_pos (by omega), if_pos (by omega), if_pos (by omega), if_neg (by omega)]
  · rw [if_pos (by omega), if_neg (by omega), if_pos rfl, Nat.add_sub_cancel_left]
  · have hafter : (index + 1) * size ≤ i * size := Nat.mul_le_mul_right _ hgt
    rw [Nat.succ_mul] at hafter
    rw [if_neg (by omega), if_neg (by omega), Nat.add_sub_cancel' (by omega)]

/-- The bits of the words of a block in which one word was set. -/
theorem testBit_word_setWord {size count index : Nat} (h : index < count) (word : Nat) {block : Block}
    (hblock : block.length = count * size) (j i : Nat) :
    (Block.word size j (setWord size index word block)).testBit i =
      if j = index then decide (i < 8 * size) && word.testBit i else (Block.word size j block).testBit i := by
  rw [testBit_word]
  by_cases hi : i < 8 * size
  · rw [getD_setWord h word hblock j (i / 8) (by omega), testBit_word, decide_eq_true hi, Bool.true_and,
      Bool.true_and, Bool.true_and]
    split
    · have hbit := testBit_getD_fill (Nat.zero_lt_one) word hi 0
      simpa [fill] using hbit
    · rfl
  · rw [testBit_word, decide_eq_false hi, Bool.false_and, Bool.false_and, Bool.false_and, ite_self]

/-- Blocks of words are equal when their words are. -/
theorem ext_word {size count : Nat} {x y : Block} (hx : x.length = count * size)
    (hy : y.length = count * size) (h : ∀ index < count, word size index x = word size index y) : x = y := by
  apply List.ext_getElem (hx.trans hy.symm)
  intro p hpx hpy
  have hp : p < size * count := by rw [Nat.mul_comm]; exact hx ▸ hpx
  have hsize : 0 < size := Nat.pos_of_ne_zero fun hz => by simp [hz] at hp
  have hmod : p % size < size := Nat.mod_lt _ hsize
  have hplace : p / size * size + p % size = p := Nat.div_add_mod' p size
  have hword := h (p / size) (Nat.div_lt_of_lt_mul hp)
  apply UInt8.toNat_inj.mp
  apply Nat.eq_of_testBit_eq
  intro i
  by_cases hi : i < 8
  · have hbit := congrArg (fun n : Nat => n.testBit (8 * (p % size) + i)) hword
    have hdiv : (8 * (p % size) + i) / 8 = p % size := by omega
    have hrem : (8 * (p % size) + i) % 8 = i := by omega
    simpa [testBit_word, hdiv, hrem, hplace, hpx, hpy, show 8 * (p % size) + i < 8 * size by omega] using hbit
  · have hlow (b : UInt8) : b.toNat.testBit i = false :=
      Nat.testBit_lt_two_pow (Nat.lt_of_lt_of_le b.toNat_lt (Nat.pow_le_pow_right (by decide) (by omega)))
    rw [hlow, hlow]

end Block

/-- A masked write of a bus word to a line sets that word to the merge of the old and the new one. -/
theorem Geometry.merge_eq_setWord (g : Geometry) {offset : Nat} (hoffset : offset < g.wordsPerLine)
    {old : Block} (hold : old.length = g.lineBytes) (sel word : Nat) :
    Block.merge g.granuleBytes ((sel % 2 ^ g.selWidth) <<< (offset * g.selWidth))
        (Block.fill g.busBytes g.wordsPerLine word) old =
      Block.setWord g.busBytes offset
        (mergeGranules g.granularity g.selWidth sel (Block.word g.busBytes offset old) word) old := by
  have hwords : old.length = g.wordsPerLine * g.busBytes := hold.trans g.lineBytes_eq
  refine Block.ext_word ((Block.length_merge ..).trans hwords) (Block.length_setWord hoffset _ hwords)
    fun index hindex => ?_
  -- both sides are compared word by word, and each word bit by bit
  apply Nat.eq_of_testBit_eq
  intro i
  rw [Block.testBit_word_setWord hoffset _ hwords]
  by_cases h : index = offset
  · subst h
    rw [if_pos rfl, g.word_merge_write hindex hold, testBit_mergeGranules g.granularity_pos,
      ← g.dataWidth_eq_mul, g.dataWidth_eq_busBytes, Bool.and_self_left]
  · rw [if_neg h, g.word_merge_write_of_ne h hindex hold]

/-! ## The untimed cache -/

/-- The lines of a cache and the blocks of its store, with a log of the operations between them. -/
structure Untimed where
  lines : Nat → Cache.Line
  /-- The contents of the store, by block address. -/
  blocks : Nat → Block
  /-- What went to the store and came from it, oldest first. -/
  log : List Operation
  counters : Counters

namespace Untimed

section Step

variable (g : Geometry) (u : Untimed)

/-- A cold cache in front of a store. -/
def cold (blocks : Nat → Block) : Untimed where
  lines _ := ⟨g.layout.tagMask, g.dirtyInit, Block.zeros g.lineBytes⟩
  blocks
  log := []
  counters := {}

/-- The line of an address holds its block. -/
def holds (a : Address) : Bool := (u.lines a.line).tag == a.tag

def countMiss : Untimed := { u with counters := u.counters.countMiss }

/-- Writes the block of a line to the store. -/
def writeBack (line : Nat) : Untimed :=
  let victim := u.lines line
  let addr := g.layout.blockAddr line victim.tag
  { u with
    blocks := fun b => if b = addr then victim.data else u.blocks b
    log := u.log ++ [⟨0, addr, true, false, victim.data, g.fullByteEnable⟩]
    counters := u.counters.countEviction g.lineBytes }

/-- Reads the block of an address from the store into its line, clean. -/
def fill (a : Address) : Untimed :=
  let addr := g.layout.blockAddr a.line a.tag
  { u with
    lines := fun i => if i = a.line then ⟨a.tag, false, u.blocks addr⟩ else u.lines i
    log := u.log ++ [⟨0, addr, false, true, u.blocks addr, 0⟩]
    counters := u.counters.countRefill g.lineBytes }

/-- A miss, up to the point where its line may be replaced. -/
def makeRoom (a : Address) : Untimed :=
  if (u.lines a.line).dirty then u.countMiss.writeBack g a.line else u.countMiss

/-- Brings the block of an address into its line, unless it is there. -/
def fetch (a : Address) : Untimed := if u.holds a then u else (u.makeRoom g a).fill g a

/-- The word of an address in its line. -/
def readWord (a : Address) : Nat := Block.word g.busBytes a.offset (u.lines a.line).data

/-- Merges the selected granules of a word into a line, which becomes dirty. -/
def writeWord (a : Address) (sel word : Nat) : Untimed :=
  let l := u.lines a.line
  let merged := mergeGranules g.granularity g.selWidth sel (Block.word g.busBytes a.offset l.data) word
  let new : Cache.Line := ⟨l.tag, true, Block.setWord g.busBytes a.offset merged l.data⟩
  { u with lines := fun i => if i = a.line then new else u.lines i }

/-- Performs a beat on a line that holds its block, and counts it. -/
def perform (beat : Beat) (hit : Bool) : Untimed :=
  let u : Untimed := { u with counters := u.counters.countBeat beat.we hit }
  match beat with
  | .read _ => u
  | .write adr word sel => u.writeWord g (g.layout.split adr) sel word

@[simp] theorem blocks_perform (beat : Beat) (hit : Bool) : (u.perform g beat hit).blocks = u.blocks := by
  cases beat <;> rfl

@[simp] theorem log_perform (beat : Beat) (hit : Bool) : (u.perform g beat hit).log = u.log := by
  cases beat <;> rfl

@[simp] theorem counters_perform (beat : Beat) (hit : Bool) :
    (u.perform g beat hit).counters = u.counters.countBeat beat.we hit := by
  cases beat <;> rfl

/-- **One beat**: the word that it reads, if it reads, and the cache after it. -/
def step (beat : Beat) : List Nat × Untimed :=
  let a := g.layout.split beat.adr
  let fetched := u.fetch g a
  (if beat.we then [] else [fetched.readWord g a], fetched.perform g beat (u.holds a))

/-- Some beats, one after the other. -/
def run (u : Untimed) : List Beat → List Nat × Untimed
  | [] => ([], u)
  | beat :: beats =>
    let (now, u) := u.step g beat
    let (later, u) := run u beats
    (now ++ later, u)

end Step

end Untimed

end WriteBack
