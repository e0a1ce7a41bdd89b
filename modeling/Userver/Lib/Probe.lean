import Userver.Lib.Loop

/-!
# Cyclic probing of a table of slots

An open-addressing table probes its slots from a start index upwards, wrapping round at the end,
until the probe's body says stop.  `Probe.loop size body fuel start s` runs such a probe on fuel
(a `Loop.run`): it visits `start`, `start + 1`, …, an index past the last slot wrapping to `0`,
hands each index with the current state to `body`, and returns the index it stopped at (`none`
when the fuel ran out) with the final state.  From a start of at most `size`, the `k`-th slot
visited is `(start + k) % size`.

* `loop_of_steps`: a probe whose body goes on for `K` slots and stops at the next one ends there.
* `loop_spec`: what the steps that go on keep, and what the step that stops makes true, holds of
  the result.
* `loop_stops`: a probe stops within `size` steps when some slot stops it from every state the
  probe can reach that slot in.
* `loop_congr`: probes whose bodies agree on the slots give the same result.

A table's slots are a `List (Option α)`, and `List.reduceOption` is the list of the values in
the occupied ones.  The `reduceOption_set_*` lemmas say, up to permutation, how writing one slot
changes that list.
-/

namespace Probe

/-- What the body of a probe says after looking at a slot. -/
inductive Action where
  | kStop
  | kContinue
  deriving DecidableEq, Repr

variable {σ : Type}

/-- One iteration: an index past the end wraps to `0`, and the body looks at that slot. -/
def step (size : Nat) (body : Nat → σ → Action × σ) : Nat × σ → (Option Nat × σ) ⊕ (Nat × σ)
  | (idx, s) =>
    let idx := if idx < size then idx else 0
    match body idx s with
    | (.kStop, s) => .inl (some idx, s)
    | (.kContinue, s) => .inr (idx + 1, s)

/-- At most `fuel` iterations of the probe from slot `start`. -/
def loop (size : Nat) (body : Nat → σ → Action × σ) (fuel start : Nat) (s : σ) :
    Option Nat × σ :=
  Loop.run (step size body) (fun p => (none, p.2)) fuel (start, s)

variable {size : Nat} {body : Nat → σ → Action × σ}

theorem wrap_eq_mod {idx : Nat} (hsize : 0 < size) (h : idx ≤ size) :
    (if idx < size then idx else 0) = idx % size := by
  split_ifs with hlt
  · exact (Nat.mod_eq_of_lt hlt).symm
  · have heq : idx = size := by omega
    subst heq
    simp

theorem loop_zero (start : Nat) (s : σ) : loop size body 0 start s = (none, s) := rfl

theorem loop_succ (fuel start : Nat) (s : σ) :
    loop size body (fuel + 1) start s =
      match body (if start < size then start else 0) s with
      | (.kStop, s') => (some (if start < size then start else 0), s')
      | (.kContinue, s') => loop size body fuel ((if start < size then start else 0) + 1) s' := by
  simp only [loop, Loop.run_succ, step]
  rcases body (if start < size then start else 0) s with ⟨_ | _, s'⟩ <;> rfl

/-- The iteration at a slot where the body stops. -/
theorem loop_succ_of_stop {fuel start : Nat} {s s' : σ}
    (h : body (if start < size then start else 0) s = (.kStop, s')) :
    loop size body (fuel + 1) start s = (some (if start < size then start else 0), s') := by
  rw [loop_succ, h]

/-- The iteration at a slot where the body goes on. -/
theorem loop_succ_of_continue {fuel start : Nat} {s s' : σ}
    (h : body (if start < size then start else 0) s = (.kContinue, s')) :
    loop size body (fuel + 1) start s =
      loop size body fuel ((if start < size then start else 0) + 1) s' := by
  rw [loop_succ, h]

/-- A probe whose body goes on at the first `K` slots it visits, through the states `st 0`,
`st 1`, …, and stops at the next one, stops there. -/
theorem loop_of_steps (hsize : 0 < size) (st : Nat → σ) {s' : σ} :
    ∀ (K fuel start : Nat), start ≤ size → K < fuel →
      (∀ k < K, body ((start + k) % size) (st k) = (.kContinue, st (k + 1))) →
      body ((start + K) % size) (st K) = (.kStop, s') →
      loop size body fuel start (st 0) = (some ((start + K) % size), s') := by
  intro K
  induction K generalizing st with
  | zero =>
    intro fuel start hstart hfuel _ hstop
    obtain ⟨fuel, rfl⟩ : ∃ f, fuel = f + 1 := ⟨fuel - 1, by omega⟩
    have hwrap := wrap_eq_mod hsize hstart
    simp only [Nat.add_zero] at hstop ⊢
    rw [← hwrap] at hstop ⊢
    exact loop_succ_of_stop hstop
  | succ K ih =>
    intro fuel start hstart hfuel hcont hstop
    obtain ⟨fuel, rfl⟩ : ∃ f, fuel = f + 1 := ⟨fuel - 1, by omega⟩
    have hfirst := hcont 0 (Nat.zero_lt_succ K)
    rw [Nat.add_zero, ← wrap_eq_mod hsize hstart] at hfirst
    rw [loop_succ_of_continue hfirst, wrap_eq_mod hsize hstart]
    -- the rest of the probe starts one slot further, from the state after the first step
    have hshift : ∀ k, (start % size + 1 + k) % size = (start + (k + 1)) % size := by
      intro k
      rw [Nat.add_assoc, Nat.add_mod, Nat.mod_mod, ← Nat.add_mod, Nat.add_comm 1 k]
    have hnext : start % size + 1 ≤ size := Nat.mod_lt start hsize
    have := ih (fun k => st (k + 1)) fuel (start % size + 1) hnext (by omega)
      (fun k hk => by rw [hshift]; exact hcont (k + 1) (by omega))
      (by rw [hshift]; exact hstop)
    rw [this, hshift]

/-- The result of a probe: at the slot it stopped at, what the stopping step makes true; when
the fuel ran out, what the steps that go on keep. -/
theorem loop_spec (hsize : 0 < size) (Inv : σ → Prop) (Post : Nat → σ → Prop)
    (hcont : ∀ i s, i < size → Inv s → (body i s).1 = .kContinue → Inv (body i s).2)
    (hstop : ∀ i s, i < size → Inv s → (body i s).1 = .kStop → Post i (body i s).2) :
    ∀ (fuel start : Nat) (s : σ), Inv s →
      (∀ i, (loop size body fuel start s).1 = some i → Post i (loop size body fuel start s).2) ∧
        ((loop size body fuel start s).1 = none → Inv (loop size body fuel start s).2) := by
  intro fuel
  induction fuel with
  | zero =>
    intro start s hs
    exact ⟨fun i hi => by simp [loop_zero] at hi, fun _ => hs⟩
  | succ fuel ih =>
    intro start s hs
    have hidx : (if start < size then start else 0) < size := by split_ifs <;> omega
    rw [loop_succ]
    rcases hb : body (if start < size then start else 0) s with ⟨a, s'⟩
    cases a with
    | kStop =>
      have hpost := hstop _ s hidx hs (by rw [hb])
      rw [hb] at hpost
      exact ⟨fun i hi => by cases hi; exact hpost, fun h => by simp at h⟩
    | kContinue =>
      have hinv := hcont _ s hidx hs (by rw [hb])
      rw [hb] at hinv
      exact ih _ s' hinv

/-- What every step keeps holds of the final state, wherever the probe stopped. -/
theorem loop_invariant (hsize : 0 < size) (Inv : σ → Prop)
    (hstep : ∀ i s, i < size → Inv s → Inv (body i s).2) (fuel start : Nat) {s : σ}
    (hs : Inv s) : Inv (loop size body fuel start s).2 := by
  have h := loop_spec hsize Inv (fun _ s => Inv s) (fun i s hi hs _ => hstep i s hi hs)
    (fun i s hi hs _ => hstep i s hi hs) fuel start s hs
  cases hr : (loop size body fuel start s).1 with
  | none => exact h.2 hr
  | some i => exact h.1 i hr

/-- A probe stops, within `size` steps, when the body stops at slot `p` from every state that
the steps going on keep in `Inv`. -/
theorem loop_stops (hsize : 0 < size) (Inv : σ → Prop) {p : Nat}
    (hcont : ∀ i s, i < size → Inv s → (body i s).1 = .kContinue → Inv (body i s).2)
    (hstopAt : ∀ s, Inv s → (body p s).1 = .kStop) :
    ∀ (j fuel start : Nat) (s : σ), start ≤ size → (start + j) % size = p → j < fuel → Inv s →
      (loop size body fuel start s).1.isSome := by
  intro j
  induction j with
  | zero =>
    intro fuel start s hstart hp hfuel hs
    obtain ⟨fuel, rfl⟩ : ∃ f, fuel = f + 1 := ⟨fuel - 1, by omega⟩
    rw [Nat.add_zero, ← wrap_eq_mod hsize hstart] at hp
    have hb := hstopAt s hs
    rw [← hp] at hb
    rcases hbody : body (if start < size then start else 0) s with ⟨a, s'⟩
    rw [hbody] at hb
    cases hb
    rw [loop_succ_of_stop hbody]
    rfl
  | succ j ih =>
    intro fuel start s hstart hp hfuel hs
    obtain ⟨fuel, rfl⟩ : ∃ f, fuel = f + 1 := ⟨fuel - 1, by omega⟩
    have hidx : (if start < size then start else 0) < size := by split_ifs <;> omega
    rcases hbody : body (if start < size then start else 0) s with ⟨a, s'⟩
    cases a with
    | kStop =>
      rw [loop_succ_of_stop hbody]
      rfl
    | kContinue =>
      have hinv := hcont _ s hidx hs (by rw [hbody])
      rw [hbody] at hinv
      rw [loop_succ_of_continue hbody, wrap_eq_mod hsize hstart]
      refine ih fuel _ s' (Nat.mod_lt start hsize) ?_ (by omega) hinv
      rw [← hp, Nat.add_assoc, Nat.add_mod, Nat.mod_mod, ← Nat.add_mod, Nat.add_comm 1 j]

/-- From any start, slot `p` is reached after `(p + size - start) % size` steps. -/
theorem start_add_gap {start p : Nat} (hstart : start < size) (hp : p < size) :
    (start + (p + size - start) % size) % size = p := by
  rw [Nat.add_mod, Nat.mod_mod, ← Nat.add_mod,
    show start + (p + size - start) = p + size by omega, Nat.add_mod_right, Nat.mod_eq_of_lt hp]

/-- A probe of one round from any slot stops, when the body stops at slot `p` from every state
that the steps going on keep in `Inv`; and at the slot it stops at, the stopping step's `Post`
holds. -/
theorem loop_round (hsize : 0 < size) (Inv : σ → Prop) (Post : Nat → σ → Prop) {p : Nat}
    (hp : p < size)
    (hcont : ∀ i s, i < size → Inv s → (body i s).1 = .kContinue → Inv (body i s).2)
    (hstop : ∀ i s, i < size → Inv s → (body i s).1 = .kStop → Post i (body i s).2)
    (hstopAt : ∀ s, Inv s → (body p s).1 = .kStop) {start : Nat} (hstart : start < size) {s : σ}
    (hs : Inv s) :
    ∃ i, (loop size body size start s).1 = some i ∧ Post i (loop size body size start s).2 := by
  have hsome := loop_stops hsize Inv hcont hstopAt ((p + size - start) % size) size start s
    hstart.le (start_add_gap hstart hp) (Nat.mod_lt _ hsize) hs
  obtain ⟨i, hi⟩ := Option.isSome_iff_exists.1 hsome
  exact ⟨i, hi, (loop_spec hsize Inv Post hcont hstop size start s hs).1 i hi⟩

/-- Probes whose bodies agree on every slot give the same result. -/
theorem loop_congr {body' : Nat → σ → Action × σ} (hsize : 0 < size)
    (h : ∀ i s, i < size → body i s = body' i s) :
    ∀ (fuel start : Nat) (s : σ), loop size body fuel start s = loop size body' fuel start s := by
  intro fuel
  induction fuel with
  | zero => intro start s; rfl
  | succ fuel ih =>
    intro start s
    have hidx : (if start < size then start else 0) < size := by split_ifs <;> omega
    rw [loop_succ, loop_succ, h _ s hidx]
    split
    · rfl
    · exact ih _ _

end Probe

namespace List

variable {α : Type}

/-- Emptying an occupied slot takes its value out of the occupied ones. -/
theorem reduceOption_set_none {l : List (Option α)} {i : Nat} {a : α} (h : l[i]? = some (some a)) :
    (a :: (l.set i none).reduceOption).Perm l.reduceOption := by
  induction l generalizing i with
  | nil => simp at h
  | cons x l ih =>
    cases i with
    | zero =>
      simp only [getElem?_cons_zero, Option.some.injEq] at h
      subst h
      simp [reduceOption_cons_of_none, reduceOption_cons_of_some]
    | succ i =>
      rw [set_cons_succ]
      have hl : l[i]? = some (some a) := by simpa using h
      cases x with
      | none => simpa [reduceOption_cons_of_none] using ih hl
      | some x =>
        rw [reduceOption_cons_of_some, reduceOption_cons_of_some]
        exact (Perm.swap x a _).trans ((ih hl).cons x)

/-- Filling an empty slot adds its value to the occupied ones. -/
theorem reduceOption_set_some_of_none {l : List (Option α)} {i : Nat} (h : l[i]? = some none)
    (b : α) : (l.set i (some b)).reduceOption.Perm (b :: l.reduceOption) := by
  induction l generalizing i with
  | nil => simp at h
  | cons x l ih =>
    cases i with
    | zero =>
      simp only [getElem?_cons_zero, Option.some.injEq] at h
      subst h
      simp [reduceOption_cons_of_none, reduceOption_cons_of_some]
    | succ i =>
      rw [set_cons_succ]
      have hl : l[i]? = some none := by simpa using h
      cases x with
      | none => simpa [reduceOption_cons_of_none] using ih hl
      | some x =>
        rw [reduceOption_cons_of_some, reduceOption_cons_of_some]
        exact ((ih hl).cons x).trans (Perm.swap b x _)

/-- Overwriting an occupied slot exchanges its value for the new one. -/
theorem reduceOption_set_some_of_some {l : List (Option α)} {i : Nat} {a : α}
    (h : l[i]? = some (some a)) (b : α) :
    (a :: (l.set i (some b)).reduceOption).Perm (b :: l.reduceOption) := by
  have hnone : (l.set i none)[i]? = some none := by
    have hi : i < l.length := by
      by_contra hi
      rw [getElem?_eq_none (by omega)] at h
      cases h
    simp [hi]
  have hfill := reduceOption_set_some_of_none hnone b
  rw [set_set] at hfill
  exact (hfill.cons a).trans ((Perm.swap b a _).trans ((reduceOption_set_none h).cons b))

/-- The slot at `i` read with `getD`, as `getElem?` sees it. -/
theorem getElem?_of_getD_eq_some {l : List (Option α)} {i : Nat} {a : α}
    (h : l.getD i none = some a) : l[i]? = some (some a) := by
  rw [getD_eq_getElem?_getD] at h
  cases hi : l[i]? with
  | none => rw [hi] at h; cases h
  | some x => rw [hi] at h; simp only [Option.getD_some] at h; rw [h]

theorem getElem?_of_getD_eq_none {l : List (Option α)} {i : Nat} (hi : i < l.length)
    (h : l.getD i none = none) : l[i]? = some none := by
  rw [getD_eq_getElem?_getD, getElem?_eq_getElem hi, Option.getD_some] at h
  rw [getElem?_eq_getElem hi, h]

/-- A table with fewer occupied slots than slots has an empty one. -/
theorem exists_none_of_reduceOption_length_lt {l : List (Option α)}
    (h : l.reduceOption.length < l.length) : ∃ i : Nat, l[i]? = some none := by
  obtain ⟨i, hi, hget⟩ := List.getElem_of_mem (reduceOption_length_lt_iff.1 h)
  exact ⟨i, by simp [hi, hget]⟩

end List
