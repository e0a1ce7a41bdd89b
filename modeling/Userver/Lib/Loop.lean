import Mathlib

/-!
# Loops run on fuel

A `while (true)` loop whose body either returns a result or goes on from a new state is run here
on fuel: `Loop.run body stop fuel s` runs at most `fuel` iterations from `s`, and `stop` says what
is returned when the fuel runs out.  When every iteration that goes on lowers a measure of the
state, fuel above the measure is enough: the run does not depend on it (`run_congr_fuel`) and it
unfolds one iteration at a time like the loop itself (`run_of_inl`, `run_of_inr`).  What the loop
returns is then described by an invariant of its state (`run_invariant`), or compared with the
run of another start state whose first iteration does the same (`run_rel`).
-/

namespace Loop

variable {σ β : Type}

/-- At most `fuel` iterations of `body` from `s`. -/
def run (body : σ → β ⊕ σ) (stop : σ → β) : Nat → σ → β
  | 0, s => stop s
  | fuel + 1, s =>
    match body s with
    | .inl b => b
    | .inr s' => run body stop fuel s'

/-- Every iteration that goes on lowers `measure`. -/
def Decreasing (body : σ → β ⊕ σ) (measure : σ → Nat) : Prop :=
  ∀ s s', body s = .inr s' → measure s' < measure s

variable {body : σ → β ⊕ σ} {stop : σ → β} {measure : σ → Nat}

theorem run_succ (fuel : Nat) (s : σ) :
    run body stop (fuel + 1) s =
      match body s with
      | .inl b => b
      | .inr s' => run body stop fuel s' := rfl

/-- Fuel above the measure gives the same run. -/
theorem run_congr_fuel (hd : Decreasing body measure) :
    ∀ {fuel fuel' : Nat} {s : σ}, measure s < fuel → measure s < fuel' →
      run body stop fuel s = run body stop fuel' s
  | 0, _, _, h, _ => absurd h (Nat.not_lt_zero _)
  | _ + 1, 0, _, _, h' => absurd h' (Nat.not_lt_zero _)
  | fuel + 1, fuel' + 1, s, h, h' => by
    rw [run_succ, run_succ]
    cases hs : body s with
    | inl b => rfl
    | inr s' =>
      have hlt := hd s s' hs
      exact run_congr_fuel hd (by omega) (by omega)

theorem run_of_inl {s : σ} {b : β} (h : body s = .inl b) (fuel : Nat) :
    run body stop (fuel + 1) s = b := by
  rw [run_succ, h]

theorem run_of_inr (hd : Decreasing body measure) {s s' : σ} (h : body s = .inr s')
    {fuel : Nat} (hf : measure s < fuel) :
    run body stop fuel s = run body stop (measure s' + 1) s' := by
  obtain ⟨fuel, rfl⟩ : ∃ f, fuel = f + 1 := ⟨fuel - 1, by omega⟩
  have hlt := hd s s' h
  rw [run_succ, h]
  exact run_congr_fuel hd (by omega) (by omega)

/-- What the loop returns satisfies `Post` when every iteration from a state satisfying `Inv`
returns something satisfying `Post` or goes on to a state satisfying `Inv`. -/
theorem run_invariant (Inv : σ → Prop) (Post : β → Prop)
    (hstep : ∀ s, Inv s → (∀ b, body s = .inl b → Post b) ∧ (∀ s', body s = .inr s' → Inv s'))
    (hstop : ∀ s, Inv s → Post (stop s)) :
    ∀ (fuel : Nat) (s : σ), Inv s → Post (run body stop fuel s)
  | 0, s, hs => hstop s hs
  | fuel + 1, s, hs => by
    rw [run_succ]
    cases h : body s with
    | inl b => exact (hstep s hs).1 b h
    | inr s' => exact run_invariant Inv Post hstep hstop fuel s' ((hstep s hs).2 s' h)

/-- What the loop returns satisfies `Post` when it starts from a state satisfying `Inv` with more
fuel than its `size`, and every iteration from such a state returns something satisfying `Post`
or goes on to a smaller state satisfying `Inv`.  Unlike `Decreasing`, the size need only go down
from the states the invariant describes. -/
theorem run_invariant_of_lt (Inv : σ → Prop) (Post : β → Prop) (size : σ → Nat)
    (hstep : ∀ s, Inv s → (∀ b, body s = .inl b → Post b) ∧
      (∀ s', body s = .inr s' → Inv s' ∧ size s' < size s)) :
    ∀ (fuel : Nat) (s : σ), Inv s → size s < fuel → Post (run body stop fuel s)
  | 0, _, _, h => absurd h (Nat.not_lt_zero _)
  | fuel + 1, s, hs, hf => by
    rw [run_succ]
    cases h : body s with
    | inl b => exact (hstep s hs).1 b h
    | inr s' =>
      obtain ⟨hs', hlt⟩ := (hstep s hs).2 s' h
      exact run_invariant_of_lt Inv Post size hstep fuel s' hs' (by omega)

/-- A property of what the loop returns from a state of measure at most `n`: it holds when
every iteration from such a state that returns returns something that has it, and so does
`stop` of such a state. -/
theorem run_of_measure_le (hd : Decreasing body measure) (Post : β → Prop) {n : Nat}
    (hinl : ∀ s b, measure s ≤ n → body s = .inl b → Post b)
    (hstop : ∀ s, measure s ≤ n → Post (stop s)) :
    ∀ (fuel : Nat) (s : σ), measure s ≤ n → Post (run body stop fuel s) :=
  run_invariant (fun s => measure s ≤ n) Post
    (fun s hs => ⟨fun b hb => hinl s b hs hb,
      fun s' hs' => le_trans (le_of_lt (hd s s' hs')) hs⟩) hstop

/-- Two runs of one loop with the same fuel, from states related by `R`, return results related
by `Q` when every iteration from related states returns related results or goes on to related
states, and `stop` keeps them related. -/
theorem run_sim (R : σ → σ → Prop) (Q : β → β → Prop)
    (hstep : ∀ s t, R s t →
      (∃ b b', body s = .inl b ∧ body t = .inl b' ∧ Q b b') ∨
        ∃ s' t', body s = .inr s' ∧ body t = .inr t' ∧ R s' t')
    (hstop : ∀ s t, R s t → Q (stop s) (stop t)) :
    ∀ (fuel : Nat) (s t : σ), R s t → Q (run body stop fuel s) (run body stop fuel t)
  | 0, s, t, h => hstop s t h
  | fuel + 1, s, t, h => by
    rcases hstep s t h with ⟨b, b', hs, ht, hq⟩ | ⟨s', t', hs, ht, hr⟩
    · rw [run_succ, run_succ, hs, ht]
      exact hq
    · rw [run_succ, run_succ, hs, ht]
      exact run_sim R Q hstep hstop fuel s' t' hr

/-- Two runs are related by a reflexive `R` when the first iteration from `s` goes on wherever
the one from `t` does, and returns a result related to the one from `t` wherever that returns. -/
theorem run_rel {R : β → β → Prop} (hR : ∀ b, R b b) (hd : Decreasing body measure) {s t : σ}
    (hinr : ∀ t', body t = .inr t' → body s = .inr t')
    (hinl : ∀ b, body t = .inl b → ∃ a, body s = .inl a ∧ R a b)
    {fuel fuel' : Nat} (hs : measure s < fuel) (ht : measure t < fuel') :
    R (run body stop fuel s) (run body stop fuel' t) := by
  cases h : body t with
  | inl b =>
    obtain ⟨a, ha, hab⟩ := hinl b h
    obtain ⟨f, rfl⟩ : ∃ f, fuel = f + 1 := ⟨fuel - 1, by omega⟩
    obtain ⟨f', rfl⟩ : ∃ f', fuel' = f' + 1 := ⟨fuel' - 1, by omega⟩
    rw [run_of_inl ha, run_of_inl h]
    exact hab
  | inr t' =>
    rw [run_of_inr hd (hinr t' h) hs, run_of_inr hd h ht]
    exact hR _

end Loop
