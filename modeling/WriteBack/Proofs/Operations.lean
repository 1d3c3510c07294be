import Mathlib.Data.List.Forall2
import Mathlib.Data.List.Induction
import WriteBack.Link.Monitor

/-!
# WriteBack.Proofs.Operations

What the monitor of a link accepts, and what it logs. The edges of a link fall into operations: an operation
ends on the first edge by which both a command and a data beat have gone across (`Grouping`). An operation
keeps the rules when no channel is offered again after its transfer, and when its beats go in one direction,
the one of its command (`KeepsRules`). None of this mentions the monitor.

The monitor accepts every edge exactly when every operation keeps the rules, and then its log has one entry for
each operation that has ended (`accepts_iff_keepsRules`). The monitor holds what has gone across in the
operation in progress (`Tracks`), so one edge is judged by what that operation becomes with it
(`Tracks.verdict_iff`).
-/

namespace WriteBack.Link

/-! ## Edges and operations -/

/-- One clock edge of a link: what both sides drive up to it. -/
structure Edge where
  /-- The number of edges before it. -/
  number : Nat
  request : Request
  response : Response

namespace Edge

/-- What goes across. -/
def transfers (e : Edge) : Transfers := .resolve e.request e.response

/-- A channel is offered that went across on an earlier edge. -/
def Reoffers (e earlier : Edge) : Prop :=
  (e.request.command.isSome = true ∧ earlier.transfers.command.isSome = true) ∨
  (e.request.write.isSome = true ∧ earlier.transfers.write.isSome = true) ∨
  (e.request.readReady = true ∧ earlier.transfers.read.isSome = true)

end Edge

/-- The edges of a link, from what both sides drive in each cycle. -/
def edges (signals : List (Request × Response)) : List Edge := signals.mapIdx fun n s => ⟨n, s.1, s.2⟩

theorem edges_append (signals : List (Request × Response)) (s : Request × Response) :
    edges (signals ++ [s]) = edges signals ++ [⟨signals.length, s.1, s.2⟩] :=
  List.mapIdx_concat

/-- The commands that go across on some edges. -/
def commands (span : List Edge) : List Command := span.filterMap (·.transfers.command)

/-- The write beats that go across on some edges. -/
def writeBeats (span : List Edge) : List WriteBeat := span.filterMap (·.transfers.write)

/-- The read beats that go across on some edges. -/
def readBeats (span : List Edge) : List Block := span.filterMap (·.transfers.read)

/-- A command and a data beat have gone across. -/
def IsComplete (span : List Edge) : Prop :=
  commands span ≠ [] ∧ (writeBeats span ≠ [] ∨ readBeats span ≠ [])

/-- The edges of a link cut into the operations that have ended and the one in progress. An operation ends on
the first edge on which it is complete, and the next one begins after it. -/
structure Grouping (all : List Edge) (ended : List (List Edge)) (current : List Edge) : Prop where
  all_eq : all = ended.flatten ++ current
  complete : ∀ span ∈ ended, IsComplete span
  first : ∀ span ∈ ended, ∀ earlier later, span = earlier ++ later → later ≠ [] → ¬IsComplete earlier
  incomplete : ¬IsComplete current

/-- The rules of the link, for the edges of one operation. -/
structure KeepsRules (span : List Edge) : Prop where
  /-- No channel is offered again after its transfer. -/
  once : span.Pairwise fun earlier e => ¬e.Reoffers earlier
  /-- The operation does not both write and read. -/
  oneWay : writeBeats span = [] ∨ readBeats span = []
  /-- The beats go in the direction of the command. -/
  direction : ∀ command ∈ commands span, if command.we then readBeats span = [] else writeBeats span = []

/-- The log entry of an operation that has ended: the cycle of its last edge, its command, and its one beat. A
read has no byte enable. -/
structure Files (span : List Edge) (op : Operation) : Prop where
  cycle_eq : span.getLast?.map Edge.number = some op.cycle
  commands_eq : commands span = [⟨op.addr, op.we, op.last⟩]
  beats_eq :
    if op.we then writeBeats span = [⟨op.data, op.byteEnable⟩] ∧ readBeats span = []
    else writeBeats span = [] ∧ readBeats span = [op.data] ∧ op.byteEnable = 0

section Append

variable (xs ys : List Edge) (e : Edge)

@[simp] theorem commands_append : commands (xs ++ ys) = commands xs ++ commands ys :=
  List.filterMap_append

@[simp] theorem writeBeats_append : writeBeats (xs ++ ys) = writeBeats xs ++ writeBeats ys :=
  List.filterMap_append

@[simp] theorem readBeats_append : readBeats (xs ++ ys) = readBeats xs ++ readBeats ys :=
  List.filterMap_append

@[simp] theorem commands_singleton : commands [e] = e.transfers.command.toList := by
  cases h : e.transfers.command <;> simp [commands, h]

@[simp] theorem writeBeats_singleton : writeBeats [e] = e.transfers.write.toList := by
  cases h : e.transfers.write <;> simp [writeBeats, h]

@[simp] theorem readBeats_singleton : readBeats [e] = e.transfers.read.toList := by
  cases h : e.transfers.read <;> simp [readBeats, h]

end Append

/-- What is complete stays so on later edges. -/
theorem IsComplete.append {xs : List Edge} (h : IsComplete xs) (ys : List Edge) :
    IsComplete (xs ++ ys) := by
  obtain ⟨hcommand, hbeat⟩ := h
  simp only [IsComplete, commands_append, writeBeats_append, readBeats_append, ne_eq,
    List.append_eq_nil_iff] at hcommand hbeat ⊢
  grind

theorem not_isComplete_nil : ¬IsComplete [] := fun h => h.1 rfl

theorem keepsRules_nil : KeepsRules [] := ⟨.nil, .inl rfl, fun _ h => by cases h⟩

/-- An operation that keeps the rules has kept them on its earlier edges. -/
theorem KeepsRules.of_append {span : List Edge} {e : Edge} (h : KeepsRules (span ++ [e])) :
    KeepsRules span := by
  obtain ⟨honce, honeWay, hdirection⟩ := h
  simp only [commands_append, writeBeats_append, readBeats_append, List.append_eq_nil_iff,
    List.mem_append] at honeWay hdirection
  refine ⟨(List.pairwise_append.mp honce).1, by grind, fun command hc => ?_⟩
  have hboth := hdirection command (.inl hc)
  split at hboth <;> simp_all

/-! ## There is one way to cut the edges -/

namespace Grouping

variable {all current : List Edge} {ended : List (List Edge)} {e : Edge}

theorem nil : Grouping [] [] [] where
  all_eq := rfl
  complete := by simp
  first := by simp
  incomplete := not_isComplete_nil

/-- An edge that ends the operation in progress. -/
theorem close (h : Grouping all ended current) (hc : IsComplete (current ++ [e])) :
    Grouping (all ++ [e]) (ended ++ [current ++ [e]]) [] where
  all_eq := by simp [h.all_eq]
  complete := by simpa [or_imp, forall_and] using ⟨h.complete, hc⟩
  first span hspan earlier later heq hlater := by
    rcases List.mem_append.mp hspan with hspan | hspan
    · exact h.first span hspan earlier later heq hlater
    · -- the part of the new operation before its last edge lies within the operation in progress
      rw [List.mem_singleton.mp hspan] at heq
      obtain ⟨later', d, rfl⟩ := (List.eq_nil_or_concat later).resolve_left hlater
      rw [List.concat_eq_append, ← List.append_assoc] at heq
      have hcurrent : current = earlier ++ later' := (List.append_inj' heq rfl).1
      exact fun hearlier => h.incomplete (hcurrent ▸ hearlier.append later')
  incomplete := not_isComplete_nil

/-- An edge on which the operation in progress goes on. -/
theorem extend (h : Grouping all ended current) (hc : ¬IsComplete (current ++ [e])) :
    Grouping (all ++ [e]) ended (current ++ [e]) where
  all_eq := by rw [h.all_eq, List.append_assoc]
  complete := h.complete
  first := h.first
  incomplete := hc

/-- How the last edge was cut. -/
theorem of_append (h : Grouping (all ++ [e]) ended current) :
    (∃ before, current = before ++ [e] ∧ Grouping all ended before) ∨
      ∃ earlier before, ended = earlier ++ [before ++ [e]] ∧ current = [] ∧ Grouping all earlier before := by
  obtain ⟨hall, hcomplete, hfirst, hincomplete⟩ := h
  rcases List.eq_nil_or_concat current with rfl | ⟨before, d, rfl⟩
  · right
    rw [List.append_nil] at hall
    rcases List.eq_nil_or_concat ended with rfl | ⟨earlier, span, rfl⟩
    · simp at hall
    · rw [List.concat_eq_append] at hall hcomplete hfirst ⊢
      have hspan := hcomplete span (by simp)
      rcases List.eq_nil_or_concat span with rfl | ⟨before, d, rfl⟩
      · exact absurd hspan not_isComplete_nil
      · rw [List.concat_eq_append, List.flatten_append, List.flatten_singleton, ← List.append_assoc] at hall
        obtain ⟨hall', hd⟩ := List.append_inj' hall rfl
        obtain rfl := List.singleton_inj.mp hd
        rw [List.concat_eq_append]
        refine ⟨earlier, before, rfl, rfl, hall', fun s hs => hcomplete s (by simp [hs]),
          fun s hs => hfirst s (by simp [hs]), ?_⟩
        exact hfirst (before ++ [e]) (by simp) before [e] rfl (by simp)
  · left
    rw [List.concat_eq_append, ← List.append_assoc] at hall
    obtain ⟨hall', hd⟩ := List.append_inj' hall rfl
    obtain rfl := List.singleton_inj.mp hd
    rw [List.concat_eq_append] at hincomplete ⊢
    exact ⟨before, rfl, hall', hcomplete, hfirst, fun hc => hincomplete (hc.append [e])⟩

/-- Two ways to cut the edges of a link are the same. -/
theorem unique {ended' : List (List Edge)} {current' : List Edge} (h : Grouping all ended current)
    (h' : Grouping all ended' current') : ended' = ended ∧ current' = current := by
  induction all using List.reverseRecOn generalizing ended current ended' current' with
  | nil =>
      have hnone {spans : List (List Edge)} {last : List Edge} (hg : Grouping [] spans last) :
          spans = [] ∧ last = [] := by
        obtain ⟨hspans, hlast⟩ := List.append_eq_nil_iff.mp hg.all_eq.symm
        refine ⟨List.eq_nil_iff_forall_not_mem.mpr fun span hspan => ?_, hlast⟩
        have hempty := List.flatten_eq_nil_iff.mp hspans span hspan
        exact not_isComplete_nil (hempty ▸ hg.complete span hspan)
      rw [(hnone h).1, (hnone h).2, (hnone h').1, (hnone h').2]
      exact ⟨rfl, rfl⟩
  | append_singleton all e ih =>
      rcases h.of_append with ⟨before, rfl, hg⟩ | ⟨earlier, before, rfl, rfl, hg⟩ <;>
        rcases h'.of_append with ⟨before', rfl, hg'⟩ | ⟨earlier', before', rfl, rfl, hg'⟩ <;>
        obtain ⟨rfl, rfl⟩ := ih hg hg'
      · exact ⟨rfl, rfl⟩
      · exact absurd (h'.complete _ (by simp)) h.incomplete
      · exact absurd (h.complete _ (by simp)) h'.incomplete
      · exact ⟨rfl, rfl⟩

end Grouping

/-! ## The monitor over one edge -/

namespace Monitor

/-- The monitor has logged the operations that have ended, and holds what has gone across in the current one. -/
structure Tracks (m : Monitor) (ended : List (List Edge)) (current : List Edge) : Prop where
  command_eq : m.command.toList = commands current
  write_eq : m.write.toList = writeBeats current
  read_eq : m.read.toList = readBeats current
  log_eq : List.Forall₂ Files ended m.log.toList

/-- A slot that holds what has gone across on a channel is filled when something has. -/
theorem isSome_slot {α : Type} {slot : Option α} {channel : Edge → Option α} {span : List Edge}
    (h : slot.toList = span.filterMap channel) :
    slot.isSome = true ↔ ∃ e ∈ span, (channel e).isSome = true := by
  have hnil : slot.isSome = true ↔ slot.toList ≠ [] := by cases slot <;> simp
  rw [hnil, h, ne_eq, List.filterMap_eq_nil_iff]
  simp [Option.isSome_iff_ne_none]

/-- A slot that is empty whenever something goes across holds that as well afterwards. -/
theorem toList_orElse {α : Type} {slot now : Option α} (h : now.isSome = true → slot.isSome = false) :
    (now <|> slot).toList = slot.toList ++ now.toList := by
  cases now <;> cases slot <;> simp_all

variable {m : Monitor} {ended : List (List Edge)} {current span : List Edge} {e : Edge}

/-- Something has gone across for the operation in progress. -/
theorem Tracks.isBusy_iff (h : m.Tracks ended current) :
    m.isBusy = true ↔ ∃ e ∈ current, e.transfers.isEmpty = false := by
  simp only [isBusy, Bool.or_eq_true, isSome_slot h.command_eq, isSome_slot h.write_eq, isSome_slot h.read_eq,
    Transfers.isEmpty, Bool.and_eq_false_iff, Option.isNone_eq_false_iff]
  grind

/-- An offer is good when the slot of its channel is empty. -/
theorem offerBreach_eq_none_iff (m : Monitor) (request : Request) :
    m.offerBreach request = none ↔
      (request.command.isSome = true → ¬m.command.isSome = true) ∧
      (request.write.isSome = true → ¬m.write.isSome = true) ∧
      (request.readReady = true → ¬m.read.isSome = true) := by
  simp only [offerBreach]
  grind

/-- An offer is good when its channel has not gone across yet in the operation. -/
theorem Tracks.offerBreach_eq_none_iff (h : m.Tracks ended current) :
    m.offerBreach e.request = none ↔ ∀ earlier ∈ current, ¬e.Reoffers earlier := by
  rw [m.offerBreach_eq_none_iff, isSome_slot h.command_eq, isSome_slot h.write_eq, isSome_slot h.read_eq]
  simp only [Edge.Reoffers, not_or, not_and, not_exists]
  grind

/-- Without a bad offer, what goes across joins the rest. -/
theorem Tracks.capture (h : m.Tracks ended current) (hoffer : m.offerBreach e.request = none) :
    (m.capture e.transfers).Tracks ended (current ++ [e]) := by
  obtain ⟨hc, hw, hr, hlog⟩ := h
  obtain ⟨hcommand, hwrite, hread⟩ := (m.offerBreach_eq_none_iff e.request).mp hoffer
  simp only [Bool.not_eq_true] at hcommand hwrite hread
  refine ⟨?_, ?_, ?_, hlog⟩
  · rw [commands_append, commands_singleton, ← hc]
    refine toList_orElse fun hnow => hcommand ?_
    simp only [Edge.transfers, Transfers.resolve] at hnow
    grind
  · rw [writeBeats_append, writeBeats_singleton, ← hw]
    refine toList_orElse fun hnow => hwrite ?_
    simp only [Edge.transfers, Transfers.resolve] at hnow
    grind
  · rw [readBeats_append, readBeats_singleton, ← hr]
    refine toList_orElse fun hnow => hread ?_
    simp only [Edge.transfers, Transfers.resolve] at hnow
    grind

/-- The beats that have gone across break a rule when they go both ways, or against the command. -/
theorem Tracks.beatBreach_eq_none_iff (h : m.Tracks ended span) :
    m.beatBreach = none ↔ (writeBeats span = [] ∨ readBeats span = []) ∧
      ∀ command ∈ commands span, if command.we then readBeats span = [] else writeBeats span = [] := by
  rw [← h.command_eq, ← h.write_eq, ← h.read_eq, beatBreach]
  cases m.command with
  | none => cases m.write <;> cases m.read <;> simp
  | some command => cases hwe : command.we <;> cases m.write <;> cases m.read <;> simp [hwe]

/-- Beats that keep the rules finish the operation when it is complete, and its log entry is what went across. -/
theorem Tracks.finished_cases (h : m.Tracks ended (current ++ [e])) (hn : e.number = m.cycle)
    (hbeat : m.beatBreach = none) :
    (¬IsComplete (current ++ [e]) ∧ m.finished = none) ∨
      (IsComplete (current ++ [e]) ∧ ∃ op, m.finished = some op ∧ Files (current ++ [e]) op) := by
  obtain ⟨cycle, command, write, read, log⟩ := m
  obtain ⟨hc, hw, hr, _⟩ := h
  have hlast : (current ++ [e]).getLast?.map Edge.number = some cycle := by simpa using hn
  generalize current ++ [e] = span at *
  cases command with
  | none => exact .inl ⟨fun hcomplete => hcomplete.1 hc.symm, rfl⟩
  | some command =>
      obtain ⟨addr, we, last⟩ := command
      cases we <;> cases write <;> cases read <;> simp [beatBreach] at hbeat
      · exact .inl ⟨fun hcomplete => hcomplete.2.elim (· hw.symm) (· hr.symm), rfl⟩
      · refine .inr ⟨⟨?_, .inr ?_⟩, _, rfl, hlast, hc.symm, hw.symm, hr.symm, rfl⟩
        · simp [← hc]
        · simp [← hr]
      · exact .inl ⟨fun hcomplete => hcomplete.2.elim (· hw.symm) (· hr.symm), rfl⟩
      · refine .inr ⟨⟨?_, .inl ?_⟩, _, rfl, hlast, hc.symm, hw.symm, hr.symm⟩
        · simp [← hc]
        · simp [← hw]

/-- The verdict on an edge: with it, the operation in progress has to keep the rules. -/
theorem Tracks.verdict_iff (h : m.Tracks ended current) (hkeeps : KeepsRules current) :
    (m.observe e.request e.transfers).1 = none ↔ KeepsRules (current ++ [e]) := by
  rw [Monitor.observe]
  cases hoffer : m.offerBreach e.request with
  | some breach =>
      have hbad : ¬∀ earlier ∈ current, ¬e.Reoffers earlier := by
        rw [← h.offerBreach_eq_none_iff, hoffer]
        simp
      simp only [reduceCtorEq, false_iff]
      exact fun hnext => hbad (by simpa using (List.pairwise_append.mp hnext.once).2.2)
  | none =>
      have hgood := h.offerBreach_eq_none_iff.mp hoffer
      have honce : (current ++ [e]).Pairwise fun earlier e => ¬e.Reoffers earlier :=
        List.pairwise_append.mpr ⟨hkeeps.once, List.pairwise_singleton .., by simpa using hgood⟩
      have hbeat := (h.capture hoffer).beatBreach_eq_none_iff
      dsimp only
      cases hbreach : (m.capture e.transfers).beatBreach with
      | some breach =>
          rw [hbreach] at hbeat
          simp only [reduceCtorEq, false_iff] at hbeat ⊢
          exact fun hnext => hbeat ⟨hnext.oneWay, hnext.direction⟩
      | none =>
          obtain ⟨honeWay, hdirection⟩ := hbeat.mp hbreach
          exact ⟨fun _ => ⟨honce, honeWay, hdirection⟩, fun _ => rfl⟩

/-- An accepted edge ends the operation in progress, or goes on with it. -/
theorem Tracks.observe (h : m.Tracks ended current) (hn : e.number = m.cycle)
    (hok : (m.observe e.request e.transfers).1 = none) :
    (¬IsComplete (current ++ [e]) ∧ (m.observe e.request e.transfers).2.Tracks ended (current ++ [e])) ∨
      (IsComplete (current ++ [e]) ∧
        (m.observe e.request e.transfers).2.Tracks (ended ++ [current ++ [e]]) []) := by
  rw [Monitor.observe] at hok ⊢
  cases hoffer : m.offerBreach e.request with
  | some breach => simp [hoffer] at hok
  | none =>
      have hcapture := h.capture hoffer
      simp only [hoffer] at hok ⊢
      cases hbreach : (m.capture e.transfers).beatBreach with
      | some breach => simp [hbreach] at hok
      | none =>
          dsimp only
          rw [retire]
          obtain ⟨hc, hw, hr, hlog⟩ := hcapture
          rcases (h.capture hoffer).finished_cases hn hbreach with
            ⟨hopen, hnone⟩ | ⟨hcomplete, op, hop, hfiles⟩
          · rw [hnone]
            exact .inl ⟨hopen, hc, hw, hr, hlog⟩
          · rw [hop]
            refine .inr ⟨hcomplete, rfl, rfl, rfl, ?_⟩
            simpa [advance] using List.rel_append hlog (.cons hfiles .nil)

/-! ## The monitor over a run -/

/-- The verdicts of a monitor on some cycles, in order, and the monitor after them. -/
def run (m : Monitor) : (signals : List (Request × Response)) → List (Option Violation) × Monitor
  | [] => ([], m)
  | (request, response) :: signals =>
    let (verdict, m) := m.observe request (.resolve request response)
    let (verdicts, m) := run m signals
    (verdict :: verdicts, m)

theorem run_append (m : Monitor) (signals : List (Request × Response)) (s : Request × Response) :
    m.run (signals ++ [s]) =
      let last := (m.run signals).2.observe s.1 (.resolve s.1 s.2)
      ((m.run signals).1 ++ [last.1], last.2) := by
  induction signals generalizing m with
  | nil => simp [run]
  | cons t signals ih => simp [run, ih]

theorem cycle_run (m : Monitor) (signals : List (Request × Response)) :
    (m.run signals).2.cycle = m.cycle + signals.length := by
  induction signals generalizing m with
  | nil => rfl
  | cons t signals ih =>
      simp only [run, ih, cycle_observe, List.length_cons]
      omega

/-- A monitor accepts every one of some cycles. -/
def Accepts (m : Monitor) (signals : List (Request × Response)) : Prop :=
  ∀ verdict ∈ (m.run signals).1, verdict = none

theorem accepts_append (m : Monitor) (signals : List (Request × Response)) (s : Request × Response) :
    m.Accepts (signals ++ [s]) ↔
      m.Accepts signals ∧ ((m.run signals).2.observe s.1 (.resolve s.1 s.2)).1 = none := by
  simp [Accepts, run_append, or_imp, forall_and]

/-- The edges of a link can be cut into operations, and while all of them keep the rules a fresh monitor tracks
them. -/
theorem exists_tracks (signals : List (Request × Response)) :
    ∃ ended current, Grouping (edges signals) ended current ∧
      (Accepts {} signals ↔ ∀ span ∈ ended ++ [current], KeepsRules span) ∧
      (Accepts {} signals → (run {} signals).2.Tracks ended current) := by
  induction signals using List.reverseRecOn with
  | nil =>
      refine ⟨[], [], .nil, ?_, fun _ => ⟨rfl, rfl, rfl, .nil⟩⟩
      simp [Accepts, run, keepsRules_nil]
  | append_singleton signals s ih =>
      obtain ⟨ended, current, hgroup, haccepts, htracks⟩ := ih
      simp only [accepts_append, edges_append, run_append]
      generalize he : Edge.mk signals.length s.1 s.2 = e
      have hn : e.number = (run {} signals).2.cycle := by
        rw [cycle_run, ← he]
        exact (Nat.zero_add _).symm
      have hresolve : Transfers.resolve s.1 s.2 = e.transfers := by rw [← he]; rfl
      have hrequest : s.1 = e.request := by rw [← he]
      rw [hresolve, hrequest]
      -- whichever way the edge goes, it is accepted when the operation in progress keeps the rules with it
      have hverdict : (Accepts {} signals ∧
          ((run {} signals).2.observe e.request e.transfers).1 = none) ↔
          (∀ span ∈ ended, KeepsRules span) ∧ KeepsRules (current ++ [e]) := by
        constructor
        · rintro ⟨haccept, hok⟩
          have hall := List.forall_mem_append.mp (haccepts.mp haccept)
          have hcurrent : KeepsRules current := List.forall_mem_singleton.mp hall.2
          exact ⟨hall.1, ((htracks haccept).verdict_iff hcurrent).mp hok⟩
        · rintro ⟨hended, hnext⟩
          have hcurrent : KeepsRules current := hnext.of_append
          have haccept := haccepts.mpr
            (List.forall_mem_append.mpr ⟨hended, List.forall_mem_singleton.mpr hcurrent⟩)
          exact ⟨haccept, ((htracks haccept).verdict_iff hcurrent).mpr hnext⟩
      by_cases hcomplete : IsComplete (current ++ [e])
      · refine ⟨ended ++ [current ++ [e]], [], hgroup.close hcomplete, hverdict.trans ?_, ?_⟩
        · simp [or_imp, forall_and, keepsRules_nil]
        · rintro ⟨haccept, hok⟩
          exact (((htracks haccept).observe hn hok).resolve_left fun h => h.1 hcomplete).2
      · refine ⟨ended, current ++ [e], hgroup.extend hcomplete, hverdict.trans ?_, ?_⟩
        · simp [or_imp, forall_and]
        · rintro ⟨haccept, hok⟩
          exact (((htracks haccept).observe hn hok).resolve_right fun h => hcomplete h.1).2

/-- **The monitor accepts the runs in which every operation keeps the rules, and logs their operations**, for
every sequence of signals on the link. There is one way to cut the edges into operations, each of which ends on
the first edge by which a command and a data beat have gone across since the one before it ended. A fresh
monitor accepts every cycle if and only if, within each of these operations,

* no channel is offered again after an earlier edge on which it went across;
* not both a write and a read beat go across;
* under a command that writes only write beats go across, and under one that reads only read beats.

When it does, its log is the list of the operations that have ended, in order, each with the cycle of its last
edge, with what its command says and with its beat. The monitor is busy exactly when something has gone across
for an operation that has not ended. -/
theorem accepts_iff_keepsRules (signals : List (Request × Response)) :
    ∃ ended current,
      (∀ ended' current', Grouping (edges signals) ended' current' ↔ ended' = ended ∧ current' = current) ∧
      (Accepts {} signals ↔ ∀ span ∈ ended ++ [current], KeepsRules span) ∧
      (Accepts {} signals →
        List.Forall₂ Files ended (run {} signals).2.log.toList ∧
          ((run {} signals).2.isBusy = true ↔ ∃ e ∈ current, e.transfers.isEmpty = false)) := by
  obtain ⟨ended, current, hgroup, haccepts, htracks⟩ := exists_tracks signals
  refine ⟨ended, current, fun ended' current' => ⟨hgroup.unique, ?_⟩, haccepts, fun haccept => ?_⟩
  · rintro ⟨rfl, rfl⟩
    exact hgroup
  · exact ⟨(htracks haccept).log_eq, (htracks haccept).isBusy_iff⟩

end Monitor

end WriteBack.Link
