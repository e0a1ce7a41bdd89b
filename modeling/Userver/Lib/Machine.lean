import Mathlib.Data.List.Basic

/-!
# Machines that answer calls

A component with an API is a machine: a state, and a step that answers one call and moves to
the next state.  `Machine.run` feeds it a list of calls and collects the answers.

Two machines run in lockstep when a relation between their states is kept by every call and
relates only states that give the same answer (`run_lockstep`): the two then give the same
answers to every list of calls.  A predicate kept by every call holds after every run
(`run_invariant`), and so at every state reachable by some run (`Reachable.invariant`); one kept
by every call of a kind holds after every run of such calls (`run_invariant_of_forall`).
-/

namespace Machine

variable {σ τ ι ρ : Type}

/-- The answers to a list of calls, in order, and the state after them. -/
def run (step : σ → ι → ρ × σ) : σ → List ι → List ρ × σ
  | s, [] => ([], s)
  | s, i :: is =>
    let rest := run step (step s i).2 is
    ((step s i).1 :: rest.1, rest.2)

variable {step : σ → ι → ρ × σ}

@[simp] theorem run_nil (s : σ) : run step s [] = ([], s) := rfl

@[simp] theorem run_cons (s : σ) (i : ι) (is : List ι) :
    run step s (i :: is) =
      ((step s i).1 :: (run step (step s i).2 is).1, (run step (step s i).2 is).2) := rfl

/-- A predicate that every call keeps holds after every run. -/
theorem run_invariant (Inv : σ → Prop) (hstep : ∀ s i, Inv s → Inv (step s i).2) :
    ∀ (is : List ι) (s : σ), Inv s → Inv (run step s is).2 := by
  intro is
  induction is with
  | nil => intro s hs; exact hs
  | cons i is ih =>
    intro s hs
    exact ih _ (hstep s i hs)

/-- The states that some list of calls leads to from `s₀`. -/
def Reachable (step : σ → ι → ρ × σ) (s₀ s : σ) : Prop := ∃ is, (run step s₀ is).2 = s

/-- A predicate that holds at `s₀` and that every call keeps holds at every state reachable
from `s₀`. -/
theorem Reachable.invariant {s₀ s : σ} (Inv : σ → Prop) (h₀ : Inv s₀)
    (hstep : ∀ s i, Inv s → Inv (step s i).2) (h : Reachable step s₀ s) : Inv s := by
  obtain ⟨is, rfl⟩ := h
  exact run_invariant Inv hstep is s₀ h₀

/-- A predicate that every call of a kind keeps holds after every run of such calls. -/
theorem run_invariant_of_forall (Inv : σ → Prop) (Ok : ι → Prop)
    (hstep : ∀ s i, Ok i → Inv s → Inv (step s i).2) :
    ∀ (is : List ι) (s : σ), (∀ i ∈ is, Ok i) → Inv s → Inv (run step s is).2 := by
  intro is
  induction is with
  | nil => intro s _ hs; exact hs
  | cons i is ih =>
    intro s hok hs
    exact ih _ (fun j hj => hok j (List.mem_cons_of_mem i hj)) (hstep s i (hok i List.mem_cons_self) hs)

/-- Lockstep simulation: when a relation between the states of two machines is kept by every
call and its states answer alike, related states answer every list of calls alike and end
related. -/
theorem run_lockstep {stepT : τ → ι → ρ × τ} (R : σ → τ → Prop)
    (hstep : ∀ s t i, R s t → (step s i).1 = (stepT t i).1 ∧ R (step s i).2 (stepT t i).2) :
    ∀ (is : List ι) (s : σ) (t : τ), R s t →
      (run step s is).1 = (run stepT t is).1 ∧ R (run step s is).2 (run stepT t is).2 := by
  intro is
  induction is with
  | nil => intro s t h; exact ⟨rfl, h⟩
  | cons i is ih =>
    intro s t h
    obtain ⟨hreply, hnext⟩ := hstep s t i h
    obtain ⟨hreplies, hend⟩ := ih _ _ hnext
    simp only [run_cons]
    exact ⟨by rw [hreply, hreplies], hend⟩

end Machine
