import Mathlib.Data.List.Basic

/-!
# Linked lists in a pointer map

A singly linked list lives in memory as a map `next : β → Option β` from each node to the node
after it, `none` standing for a null pointer.  `Seg next a L b` says that, starting at the pointer
`a` and following `next`, the nodes visited are `L` and the walk arrives at the pointer `b`; a
whole list is a segment that arrives at `none`.

* `Seg.snoc_iff`, `Seg.push`: a node comes in at the end of a whole list when the old last node
  is made to point at it;
* `Seg.exists_cons`: a whole list from a node starts with it;
* `Seg.congr`: a segment depends only on the pointers of the nodes it visits;
* `Seg.next_mem`: in a whole list, a node of the list points only at a node of the list.
-/

/-- Starting at the pointer `a` and following `next`, the nodes visited are `L`, and the walk
arrives at the pointer `b`. -/
inductive Seg {β : Type} (next : β → Option β) : Option β → List β → Option β → Prop
  | nil (a : Option β) : Seg next a [] a
  | cons (q : β) (L : List β) (b : Option β) : Seg next (next q) L b → Seg next (some q) (q :: L) b

namespace Seg

variable {β : Type} {next next' : β → Option β}

theorem cons_iff {a b : Option β} {q : β} {L : List β} :
    Seg next a (q :: L) b ↔ a = some q ∧ Seg next (next q) L b := by
  constructor
  · rintro (_ | ⟨_, _, _, h⟩)
    exact ⟨rfl, h⟩
  · rintro ⟨rfl, h⟩
    exact .cons q L b h

theorem nil_iff {a b : Option β} : Seg next a [] b ↔ a = b := by
  constructor
  · rintro ⟨⟩
    rfl
  · rintro rfl
    exact .nil a

/-- A whole list from a node starts with that node. -/
theorem exists_cons {a : β} {L : List β} (h : Seg next (some a) L none) :
    ∃ L', L = a :: L' ∧ Seg next (next a) L' none := by
  cases L with
  | nil => exact absurd (nil_iff.mp h) (Option.some_ne_none a)
  | cons q L' =>
    obtain ⟨hq, h'⟩ := cons_iff.mp h
    cases Option.some_inj.mp hq
    exact ⟨L', rfl, h'⟩

theorem append {a b c : Option β} {L₁ L₂ : List β} (h₁ : Seg next a L₁ b)
    (h₂ : Seg next b L₂ c) : Seg next a (L₁ ++ L₂) c := by
  induction h₁ with
  | nil => exact h₂
  | cons q L _ _ ih => exact .cons q _ c (ih h₂)

theorem split {a c : Option β} {L₁ L₂ : List β} (h : Seg next a (L₁ ++ L₂) c) :
    ∃ b, Seg next a L₁ b ∧ Seg next b L₂ c := by
  induction L₁ generalizing a with
  | nil => exact ⟨a, .nil a, h⟩
  | cons q L ih =>
    obtain ⟨rfl, h'⟩ := cons_iff.mp h
    obtain ⟨b, h₁, h₂⟩ := ih h'
    exact ⟨b, .cons q L b h₁, h₂⟩

/-- A whole list ends with `z` exactly when the list before `z` leads to `z` and `z` points at
nothing. -/
theorem snoc_iff {a : Option β} {L : List β} {z : β} :
    Seg next a (L ++ [z]) none ↔ Seg next a L (some z) ∧ next z = none := by
  constructor
  · intro h
    obtain ⟨b, h₁, h₂⟩ := split h
    obtain ⟨rfl, h₃⟩ := cons_iff.mp h₂
    exact ⟨h₁, nil_iff.mp h₃⟩
  · rintro ⟨h₁, hz⟩
    exact append h₁ (.cons z [] none (by rw [hz]; exact .nil none))

/-- A segment depends only on the pointers of the nodes it visits. -/
theorem congr {a b : Option β} {L : List β} (h : Seg next a L b) (hc : ∀ q ∈ L, next' q = next q) :
    Seg next' a L b := by
  induction h with
  | nil => exact .nil _
  | cons q L b _ ih =>
    refine .cons q L b ?_
    rw [hc q List.mem_cons_self]
    exact ih (fun q' hq' => hc q' (List.mem_cons_of_mem _ hq'))

/-- Pushing `x` after the last node `z` of a whole list: `z` now points at `x`, and `x` at
nothing. -/
theorem push {a : Option β} {L : List β} {z x : β} (h : Seg next a (L ++ [z]) none)
    (hc : ∀ q ∈ L, next' q = next q) (hzx : next' z = some x) (hx : next' x = none) :
    Seg next' a (L ++ [z, x]) none := by
  have hL : Seg next' a L (some z) := congr (snoc_iff.mp h).1 hc
  have hzx' : Seg next' (some z) [z, x] none := by
    refine .cons z [x] none ?_
    rw [hzx]
    exact .cons x [] none (by rw [hx]; exact .nil none)
  exact append hL hzx'

/-- In a whole list, a node of the list points only at a node of the list. -/
theorem next_mem {a : Option β} {L : List β} (h : Seg next a L none) {q r : β} (hq : q ∈ L)
    (hr : next q = some r) : r ∈ L := by
  induction L generalizing a with
  | nil => simp at hq
  | cons q' L ih =>
    obtain ⟨rfl, h'⟩ := cons_iff.mp h
    rcases List.mem_cons.mp hq with rfl | hq
    · -- the walk goes on from `q` to `r`, so `r` is the next node visited
      rw [hr] at h'
      cases L with
      | nil => exact absurd (nil_iff.mp h') (Option.some_ne_none r)
      | cons r' L' =>
        obtain ⟨hr', -⟩ := cons_iff.mp h'
        rw [Option.some_inj.mp hr']
        exact List.mem_cons_of_mem _ List.mem_cons_self
    · exact List.mem_cons_of_mem _ (ih h' hq)

end Seg
