import WriteBack.Proofs.Protocol

/-!
# WriteBack.Proofs.Outcome

How a computation that drives a simulator can end. `Ends` has a postcondition for the case that it returns and
one for the case that it fails; what is proved of a computation is put together from its parts with
`Ends.bind`, down to the single cycle (`ends_tick`).
-/

namespace WriteBack

section Ends

variable {S α β : Type}

/-- A computation returns a value and a simulator with `Q`, or fails and leaves one with `E`. -/
def Ends (x : Run S α) (s : Simulator S) (Q : α → Simulator S → Prop) (E : RunError → Simulator S → Prop) :
    Prop :=
  match x.run s with
  | .ok a s' => Q a s'
  | .error e s' => E e s'

variable {s : Simulator S} {P Q : α → Simulator S → Prop} {R : β → Simulator S → Prop}
variable {D E : RunError → Simulator S → Prop}

theorem ends_pure {a : α} (h : Q a s) : Ends (pure a) s Q E := h

theorem ends_throw {e : RunError} (h : E e s) : Ends (throw e) s Q E := h

/-- A failure of the first part is a failure of the whole; the second part knows what the first one did. -/
theorem Ends.bind {x : Run S α} {f : α → Run S β} (hx : Ends x s P D) (hfail : ∀ e s', D e s' → E e s')
    (hf : ∀ a s', x.run s = .ok a s' → P a s' → Ends (f a) s' R E) : Ends (x >>= f) s R E := by
  rw [Ends, EStateM.run_bind]
  rw [Ends] at hx
  cases hrun : x.run s with
  | ok a s' =>
      rw [hrun] at hx
      exact hf a s' hrun hx
  | error e s' =>
      rw [hrun] at hx
      exact hfail e s' hx

/-- A computation that returns is made of parts that return. -/
theorem exists_run_of_bind {x : Run S α} {f : α → Run S β} {b : β} {s' : Simulator S}
    (h : (x >>= f).run s = .ok b s') : ∃ a middle, x.run s = .ok a middle ∧ (f a).run middle = .ok b s' := by
  rw [EStateM.run_bind] at h
  cases hx : x.run s with
  | ok a middle =>
      rw [hx] at h
      exact ⟨a, middle, rfl, h⟩
  | error e s₁ =>
      rw [hx] at h
      cases h

/-- An outcome may be weakened, for results and for errors. -/
theorem Ends.mono {x : Run S α} (h : Ends x s P D) (hPQ : ∀ a s', P a s' → Q a s')
    (hDE : ∀ e s', D e s' → E e s') : Ends x s Q E := by
  rw [Ends] at h ⊢
  cases hrun : x.run s with
  | ok a s' =>
      rw [hrun] at h
      exact hPQ a s' h
  | error e s' =>
      rw [hrun] at h
      exact hDE e s' h

/-- A result has what was shown of results. -/
theorem Ends.of_run_eq_ok {x : Run S α} {a : α} {s' : Simulator S} (h : Ends x s Q E)
    (hrun : x.run s = .ok a s') : Q a s' := by
  rw [Ends, hrun] at h
  exact h

/-- An error has what was shown of errors. -/
theorem Ends.of_run_eq_error {x : Run S α} {e : RunError} {s' : Simulator S} (h : Ends x s Q E)
    (hrun : x.run s = .error e s') : E e s' := by
  rw [Ends, hrun] at h
  exact h

/-- What each of some computations keeps, all of them in a row keep. -/
theorem ends_mapM {I : Simulator S → Prop} {f : β → Run S α} {xs : List β}
    (hstep : ∀ x ∈ xs, ∀ s, I s → Ends (f x) s (fun _ s' => I s') E) (hs : I s) :
    Ends (xs.mapM f) s (fun _ s' => I s') E := by
  induction xs generalizing s with
  | nil => exact ends_pure hs
  | cons x xs ih =>
      obtain ⟨hx, hxs⟩ := List.forall_mem_cons.mp hstep
      rw [List.mapM_cons]
      refine (hx s hs).bind (fun _ _ => id) fun _ _ _ hs' => ?_
      exact (ih hxs hs').bind (fun _ _ => id) fun _ _ _ hs'' => ends_pure hs''

/-- What a computation leaves behind, whether it returns or fails. -/
def Run.leave (x : Run S α) (s : Simulator S) : Simulator S :=
  match x.run s with
  | .ok _ s' => s'
  | .error _ s' => s'

/-- What holds however a computation ends holds of what it leaves behind. -/
theorem Ends.leave {x : Run S α} {I : Simulator S → Prop} (h : Ends x s (fun _ s' => I s') fun _ s' => I s') :
    I (x.leave s) := by
  rw [Run.leave]
  rw [Ends] at h
  cases hrun : x.run s with
  | ok a s' =>
      rw [hrun] at h
      exact h
  | error e s' =>
      rw [hrun] at h
      exact h

end Ends

namespace Simulator

/-- Under a watching monitor a cycle fails only when the cycles are used up, and then nothing happens. -/
theorem ends_tick {S : Type} [Link.BackingStore S] {s : Simulator S}
    (h : s.link.monitor.Watches s.cache) (bus : Bus.Request) :
    Ends (tick bus) s (fun response s' => response = s.cache.busResponse bus ∧ s' = s.next bus)
      fun e s' => e = .cycleBudget s.maxCycles ∧ s' = s := by
  rw [Ends, run_tick_of_watches h]
  by_cases hb : s.maxCycles ≤ s.cycle
  · rw [if_pos hb]
    exact ⟨rfl, rfl⟩
  · rw [if_neg hb]
    exact ⟨rfl, rfl⟩

end Simulator

end WriteBack
