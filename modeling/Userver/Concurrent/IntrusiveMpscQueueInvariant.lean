import Mathlib.Data.List.Nodup
import Userver.Concurrent.IntrusiveMpscQueue

/-!
# `IntrusiveMpscQueueImpl`: the invariant and the linearizability of the queue

Over every interleaving of the producers' and the consumer's steps (`Reachable`), the queue keeps
`Inv`: following the `next` pointers from `tail_`, with the stores the producers owe made, visits
the stub (when `tail_` is the stub) and then exactly the pushed nodes the consumer has not taken,
in the order of their exchanges, and ends at `head_`; no other node points anywhere, except the
node a `DoTryPop` call holds until it clears its `next`.  `Inv.step_spec` shows that every step
keeps it and is a step of the abstract FIFO queue (`FifoStep`): a push enqueues at its exchange on
`head_`, a pop dequeues the oldest node when it moves `tail_` (or at its compare-and-swap), and
every other step changes nothing.
-/

namespace Userver

namespace Concurrent

namespace IntrusiveMpscQueue

variable {α : Type} [DecidableEq α]

/-! ## The invariant -/

/-- What the consumer's call knows at its program counter: its local `tail` is `tail_`, not the
stub once the stub is discarded; a node it loaded as `next` is still there; and a spin waits on a
node that is not `head_`. -/
def PcOk (s : State α) : Pc α → Prop
  | .idle => True
  | .loadHeadOfStub => s.tail = .stub
  | .spinStub => s.tail = .stub ∧ s.head ≠ .stub
  | .discardStub n => s.tail = .stub ∧ s.next .stub = some n
  | .loadNext t => s.tail = t ∧ t ≠ .stub
  | .loadHead t => s.tail = t ∧ t ≠ .stub
  | .casHead t => s.tail = t ∧ t ≠ .stub
  | .spinTail t => s.tail = t ∧ t ≠ .stub ∧ s.head ≠ t
  | .clearNext t => t ≠ .stub ∧ s.next t = some s.tail ∧ s.pending t = none

/-- The invariant of the queue. -/
structure Inv (s : State α) : Prop where
  stub_not_mem : .stub ∉ s.pushed
  nodup : s.pushed.Nodup
  taken_initial : taken s <+: s.pushed
  /-- From `tail_`, the links visit the chain and end at null. -/
  seg : Seg s.link (some s.tail) (chain s) none
  last : (chain s).getLast? = some s.head
  /-- A node off the chain links nowhere, but the one a call holds. -/
  outside : ∀ a, a ∉ chain s → a ∉ s.pc.held → s.link a = none
  /-- A producer owes a store only into a null `next`. -/
  stored : ∀ a, s.next a = none ∨ s.pending a = none
  pc : PcOk s s.pc

theorem inv_init : Inv (init : State α) where
  stub_not_mem := List.not_mem_nil
  nodup := List.nodup_nil
  taken_initial := List.prefix_refl []
  seg := .cons Node.stub [] none (.nil none)
  last := rfl
  outside := by
    intro a ha _
    simp only [chain, init, queue, List.drop_nil, if_pos] at ha
    rfl
  stored := fun _ => .inl rfl
  pc := trivial

theorem mem_chain {s : State α} {a : Node α} :
    a ∈ chain s ↔ (s.tail = .stub ∧ a = .stub) ∨ a ∈ queue s := by
  unfold chain
  by_cases h : s.tail = .stub <;> simp [h]

namespace Inv

variable {s : State α} (h : Inv s)
include h

/-! ### Reading the invariant -/

theorem taken_append_queue : taken s ++ queue s = s.pushed := by
  obtain ⟨q, hq⟩ := h.taken_initial
  rw [queue, ← hq, List.drop_left]

theorem nodup_taken_append_queue : (taken s ++ queue s).Nodup := by
  rw [h.taken_append_queue]
  exact h.nodup

theorem not_mem_queue_of_taken {a : Node α} (ha : a ∈ taken s) : a ∉ queue s :=
  List.disjoint_of_nodup_append h.nodup_taken_append_queue ha

theorem stub_not_mem_queue : .stub ∉ queue s := fun hm =>
  h.stub_not_mem (h.taken_append_queue ▸ List.mem_append_right _ hm)

theorem mem_pushed_of_mem_queue {a : Node α} (ha : a ∈ queue s) : a ∈ s.pushed :=
  h.taken_append_queue ▸ List.mem_append_right _ ha

theorem chain_nodup : (chain s).Nodup := by
  have hq : (queue s).Nodup := (List.nodup_append.mp h.nodup_taken_append_queue).2.1
  unfold chain
  split
  · exact List.nodup_cons.mpr ⟨h.stub_not_mem_queue, hq⟩
  · exact hq

theorem tail_mem_chain : s.tail ∈ chain s := by
  obtain ⟨L, hL, -⟩ := h.seg.exists_cons
  rw [hL]
  exact List.mem_cons_self

theorem head_mem_chain : s.head ∈ chain s := List.mem_of_getLast? h.last

/-- A node the consumer has taken is off the chain. -/
theorem not_mem_chain_of_taken {a : Node α} (ha : a ∈ taken s) : a ∉ chain s := by
  rw [mem_chain]
  rintro (⟨-, rfl⟩ | hq)
  · exact h.stub_not_mem (h.taken_initial.subset ha)
  · exact h.not_mem_queue_of_taken ha hq

theorem not_mem_chain_of_held {a : Node α} (ha : a ∈ s.pc.held) : a ∉ chain s :=
  h.not_mem_chain_of_taken (List.mem_append_right _ ha)

theorem mem_pushed_of_mem_chain {a : Node α} (ha : a ∈ chain s) (hs : a ≠ .stub) :
    a ∈ s.pushed := by
  rcases mem_chain.mp ha with ⟨-, rfl⟩ | hq
  · exact absurd rfl hs
  · exact h.mem_pushed_of_mem_queue hq

/-- A node never pushed is neither on the chain nor held, so it links nowhere. -/
theorem link_fresh {x : α} (hx : .item x ∉ s.pushed) : s.link (.item x) = none := by
  refine h.outside _ (fun hc => hx (h.mem_pushed_of_mem_chain hc (by simp))) ?_
  exact fun hh => hx (h.taken_initial.subset (List.mem_append_right _ hh))

theorem fresh_ne_of_mem_chain {x : α} (hx : .item x ∉ s.pushed) {a : Node α} (ha : a ∈ chain s) :
    .item x ≠ a := by
  rintro rfl
  exact hx (h.mem_pushed_of_mem_chain ha (by simp))

theorem chain_eq_append_head : ∃ L, chain s = L ++ [s.head] ∧ s.head ∉ L := by
  obtain ⟨L, hL⟩ := List.getLast?_eq_some_iff.mp h.last
  have hnd := h.chain_nodup
  rw [hL, List.nodup_append] at hnd
  exact ⟨L, hL, fun hm => hnd.2.2 _ hm _ (List.mem_singleton_self _) rfl⟩

/-- `head_` links nowhere: its `next` is null and no producer owes a store into it. -/
theorem link_head : s.link s.head = none := by
  obtain ⟨L, hL, -⟩ := h.chain_eq_append_head
  have hseg := h.seg
  rw [hL] at hseg
  exact (Seg.snoc_iff.mp hseg).2

/-- Every link points at a node of the chain. -/
theorem link_mem_chain {a b : Node α} (hab : s.link a = some b) : b ∈ chain s := by
  by_cases hc : a ∈ chain s
  · exact h.seg.next_mem hc hab
  by_cases hh : a ∈ s.pc.held
  · -- the held node still points at the new `tail_`
    have hpc := h.pc
    cases hp : s.pc with
    | clearNext t =>
      rw [hp] at hpc hh
      obtain ⟨-, hnext, -⟩ := hpc
      rw [List.mem_singleton.mp hh, link_of_next hnext] at hab
      exact Option.some_inj.mp hab ▸ h.tail_mem_chain
    | _ => simp [hp, Pc.held] at hh
  · rw [h.outside a hc hh] at hab
    exact absurd hab (by simp)

/-- The newest node of the queue is the last node of the chain, `head_`. -/
theorem eq_head_of_getLast?_queue {b : Node α} (hq : (queue s).getLast? = some b) : b = s.head := by
  have hlast := h.last
  unfold chain at hlast
  split at hlast
  · rw [List.getLast?_cons, hq, Option.getD_some] at hlast
    exact Option.some_inj.mp hlast
  · rw [hq] at hlast
    exact Option.some_inj.mp hlast

/-- The queue is empty exactly when `head_` is the stub. -/
theorem queue_eq_nil_iff : queue s = [] ↔ s.head = .stub := by
  constructor
  · intro hq
    -- an empty queue leaves the stub alone on the chain
    have htc := h.tail_mem_chain
    have hlast := h.last
    rw [mem_chain, hq] at htc
    have ht : s.tail = .stub := (htc.resolve_right List.not_mem_nil).1
    simp only [chain, if_pos ht, hq, List.getLast?_singleton, Option.some_inj] at hlast
    exact hlast.symm
  · intro hh
    cases hq : (queue s).getLast? with
    | none => exact List.getLast?_eq_none_iff.mp hq
    | some b =>
      have hb : b = .stub := (h.eq_head_of_getLast?_queue hq).trans hh
      exact absurd (hb ▸ List.mem_of_getLast? hq) h.stub_not_mem_queue

/-- The newest node of the queue is `head_`, unless `head_` is the stub and the queue empty. -/
theorem getLast?_queue : (queue s).getLast? = if s.head = .stub then none else some s.head := by
  by_cases hh : s.head = .stub
  · rw [if_pos hh, h.queue_eq_nil_iff.mpr hh, List.getLast?_nil]
  · rw [if_neg hh]
    cases hq : (queue s).getLast? with
    | none => exact absurd (h.queue_eq_nil_iff.mp (List.getLast?_eq_none_iff.mp hq)) hh
    | some b => rw [h.eq_head_of_getLast?_queue hq]

/-- A node other than `head_` on the chain links to the next one, so when `tail_` is not `head_`
its link is set or owed. -/
theorem exists_link_tail (hne : s.head ≠ s.tail) : ∃ n, s.link s.tail = some n := by
  obtain ⟨L, hL, hseg⟩ := h.seg.exists_cons
  cases L with
  | nil =>
    have hlast := h.last
    rw [hL] at hlast
    exact absurd (Option.some_inj.mp hlast).symm hne
  | cons n L' =>
    exact ⟨n, (Seg.cons_iff.mp hseg).1⟩

/-- The queue after an exchange: the node comes in at the back. -/
theorem queue_exchange {x : α} : queue (exchange s x) = queue s ++ [.item x] := by
  have hle : (taken s).length ≤ s.pushed.length := h.taken_initial.length_le
  simp only [queue, taken_exchange, pushed_exchange, List.drop_append_of_le_length hle]

theorem chain_exchange {x : α} : chain (exchange s x) = chain s ++ [.item x] := by
  unfold chain
  rw [tail_exchange, h.queue_exchange]
  split <;> rfl

end Inv

/-! ## What each transition keeps -/

/-- A step of the abstract FIFO queue, read off the history: nothing changes, a node comes in at
the back, or the consumer takes the front node. -/
def FifoStep (s s' : State α) : Prop :=
  (s'.pushed = s.pushed ∧ taken s' = taken s ∧ queue s' = queue s) ∨
  (∃ x, s'.pushed = s.pushed ++ [.item x] ∧ taken s' = taken s ∧
    queue s' = queue s ++ [.item x]) ∨
  (∃ t, s'.pushed = s.pushed ∧ taken s' = taken s ++ [t] ∧ queue s = t :: queue s')

omit [DecidableEq α] in
theorem fifoStep_of_eq {s s' : State α} (hp : s'.pushed = s.pushed) (ht : taken s' = taken s) :
    FifoStep s s' :=
  .inl ⟨hp, ht, queue_eq_of_taken hp ht⟩

section Transitions

variable {s : State α} (h : Inv s)
include h

theorem inv_setMode (m : PopMode) : Inv { s with mode := m } :=
  ⟨h.stub_not_mem, h.nodup, h.taken_initial, h.seg, h.last, h.outside, h.stored, h.pc⟩

/-- A move of the consumer's counter between two points where it holds no node. -/
theorem inv_setPc {p : Pc α} (hs : s.pc.held = []) (hp : p.held = []) (hok : PcOk s p) :
    Inv { s with pc := p } ∧ FifoStep s { s with pc := p } := by
  have ht : taken { s with pc := p } = taken s := by simp only [taken, hs, hp]
  have hc : chain { s with pc := p } = chain s := by simp only [chain, queue, ht]
  refine ⟨⟨h.stub_not_mem, h.nodup, ?_, ?_, ?_, ?_, h.stored, hok⟩, fifoStep_of_eq rfl ht⟩
  · rw [ht]
    exact h.taken_initial
  · rw [hc]
    exact h.seg
  · rw [hc]
    exact h.last
  · intro a ha _
    exact h.outside a (hc ▸ ha) (by simp [hs])

theorem pcOk_exchange {x : α} (hx : .item x ∉ s.pushed) : PcOk (exchange s x) s.pc := by
  have hpc := h.pc
  cases hp : s.pc <;> rw [hp] at hpc
  case spinStub => exact ⟨hpc.1, by simp [exchange]⟩
  case spinTail t =>
    obtain ⟨ht, hts, -⟩ := hpc
    exact ⟨ht, hts, h.fresh_ne_of_mem_chain hx (ht ▸ h.tail_mem_chain)⟩
  case clearNext t =>
    -- the held node is off the chain, so it is not the `head_` the exchange read
    have hth : t ≠ s.head := fun e =>
      h.not_mem_chain_of_held (by simp [hp, Pc.held]) (e ▸ h.head_mem_chain)
    obtain ⟨hts, hnext, hpend⟩ := hpc
    exact ⟨hts, hnext, by simp [exchange, Function.update_of_ne hth, hpend]⟩
  all_goals exact hpc

/-- An exchange of a node never pushed before puts it at the back of the chain. -/
theorem inv_exchange {x : α} (hx : .item x ∉ s.pushed) :
    Inv (exchange s x) ∧ FifoStep s (exchange s x) := by
  obtain ⟨L, hL, hhL⟩ := h.chain_eq_append_head
  have hxh : (.item x : Node α) ≠ s.head := h.fresh_ne_of_mem_chain hx h.head_mem_chain
  have hc := h.chain_exchange (x := x)
  refine ⟨⟨?_, ?_, ?_, ?_, ?_, ?_, ?_, pcOk_exchange h hx⟩,
    .inr (.inl ⟨x, rfl, rfl, h.queue_exchange⟩)⟩
  · simpa using h.stub_not_mem
  · exact List.nodup_append.mpr ⟨h.nodup, List.nodup_singleton _,
      fun a ha b hb => by rw [List.mem_singleton.mp hb]; rintro rfl; exact hx ha⟩
  · exact h.taken_initial.trans (List.prefix_append _ _)
  · -- the old `head_` now links to the node, which links nowhere
    have hseg := h.seg
    rw [hL] at hseg
    rw [hc, hL, List.append_assoc, List.singleton_append]
    refine Seg.push hseg (fun q hq => link_exchange_of_ne s (ne_of_mem_of_not_mem hq hhL)) ?_ ?_
    · simp [State.link, exchange, (link_eq_none.mp h.link_head).1]
    · rw [link_exchange_of_ne s hxh]
      exact h.link_fresh hx
  · rw [hc]
    simp [exchange]
  · intro a ha hh
    rw [hc, List.mem_append, not_or] at ha
    have hah : a ≠ s.head := fun e => ha.1 (e ▸ h.head_mem_chain)
    rw [link_exchange_of_ne s hah]
    exact h.outside a ha.1 hh
  · intro a
    by_cases ha : a = s.head
    · exact .inl (ha ▸ (link_eq_none.mp h.link_head).1)
    · simpa [exchange, Function.update_of_ne ha] using h.stored a

/-- A producer's store: the link it owed becomes a `next`. -/
theorem inv_storeNext {prev n : Node α} (hp : s.pending prev = some n) :
    Inv (storeNext s prev n) ∧ FifoStep s (storeNext s prev n) := by
  have hnext : s.next prev = none := (h.stored prev).resolve_right (by simp [hp])
  have hlink := link_storeNext s hp hnext
  refine ⟨⟨h.stub_not_mem, h.nodup, h.taken_initial, ?_, h.last, ?_, ?_, ?_⟩,
    fifoStep_of_eq rfl rfl⟩
  · rw [hlink]
    exact h.seg
  · intro a ha hh
    rw [hlink]
    exact h.outside a ha hh
  · intro a
    by_cases ha : a = prev
    · subst ha
      simp [storeNext]
    · simpa [storeNext, Function.update_of_ne ha] using h.stored a
  · -- the store lands on a null `next`, which no point of the consumer's call has read as set
    show PcOk (storeNext s prev n) s.pc
    have hpc := h.pc
    cases hq : s.pc <;> rw [hq] at hpc
    case discardStub m =>
      have hne : Node.stub ≠ prev := by
        rintro rfl
        rw [hpc.2] at hnext
        exact absurd hnext (by simp)
      exact ⟨hpc.1, by simp [storeNext, Function.update_of_ne hne, hpc.2]⟩
    case clearNext t =>
      have hne : t ≠ prev := by
        rintro rfl
        rw [hpc.2.2] at hp
        exact absurd hp (by simp)
      exact ⟨hpc.1, by simp [storeNext, Function.update_of_ne hne, hpc.2.1],
        by simp [storeNext, Function.update_of_ne hne, hpc.2.2]⟩
    all_goals exact hpc

/-- The consumer takes `tail_` on the happy path (or after its spin): the front node leaves the
queue, and `tail_` moves to the node after it. -/
theorem inv_take {t n : Node α} (hs : s.pc.held = []) (ht : s.tail = t) (hts : t ≠ .stub)
    (hn : s.next t = some n) : Inv (take s t n) ∧ FifoStep s (take s t n) := by
  have hchain : chain s = queue s := by simp [chain, ht, hts]
  obtain ⟨L, hL, hseg⟩ := h.seg.exists_cons
  rw [ht, link_of_next hn] at hseg
  rw [ht] at hL
  obtain ⟨L', hL', hseg'⟩ := hseg.exists_cons
  have hq : queue s = t :: L := hchain ▸ hL
  have htaken : taken (take s t n) = taken s ++ [t] := by
    show s.returned ++ [t] = s.returned ++ s.pc.held ++ [t]
    rw [hs, List.append_nil]
  have hpushed : (taken s ++ [t]) ++ L = s.pushed := by
    rw [List.append_assoc, List.singleton_append, ← hq, h.taken_append_queue]
  have hqueue : queue (take s t n) = L := by
    show s.pushed.drop (taken (take s t n)).length = L
    rw [htaken, ← hpushed, List.drop_left]
  have hn_stub : n ≠ .stub := fun e =>
    h.stub_not_mem_queue (e ▸ hq ▸ List.mem_cons_of_mem _ (hL' ▸ List.mem_cons_self))
  have hchain' : chain (take s t n) = L := by
    rw [chain, if_neg (show (take s t n).tail ≠ .stub from hn_stub), hqueue]
  refine ⟨⟨h.stub_not_mem, h.nodup, ⟨L, htaken ▸ hpushed⟩, ?_, ?_, ?_, h.stored, ?_⟩,
    .inr (.inr ⟨t, rfl, htaken, hqueue ▸ hq⟩)⟩
  · rw [hchain', hL']
    exact .cons n L' none hseg'
  · have hlast := h.last
    rw [hchain', hL', ← List.getLast?_cons_cons (a := t), ← hL', ← hq, ← hchain]
    exact hlast
  · intro a ha hh
    rw [hchain'] at ha
    refine h.outside a ?_ (by simp [hs])
    rw [hchain, hq, List.mem_cons, not_or]
    exact ⟨fun e => hh (by simp [take, Pc.held, e]), ha⟩
  · exact ⟨hts, hn, (h.stored t).resolve_left (by simp [hn])⟩

/-- The stub leaves the front of the chain once its `next` is set. -/
theorem inv_discard {n : Node α} (hpc : s.pc = .discardStub n) :
    Inv (discard s n) ∧ FifoStep s (discard s n) := by
  have hok := h.pc
  rw [hpc] at hok
  obtain ⟨ht, hn⟩ := hok
  have hchain : chain s = .stub :: queue s := by simp [chain, ht]
  have hseg := h.seg
  rw [hchain, ht, Seg.cons_iff, link_of_next hn] at hseg
  obtain ⟨Q, hQ, -⟩ := hseg.2.exists_cons
  have hn_stub : n ≠ .stub := fun e => h.stub_not_mem_queue (e ▸ hQ ▸ List.mem_cons_self)
  have hs : s.pc.held = [] := by simp [hpc, Pc.held]
  have htaken : taken (discard s n) = taken s := by
    show s.returned ++ [] = s.returned ++ s.pc.held
    rw [hs]
  have hqueue : queue (discard s n) = queue s := queue_eq_of_taken rfl htaken
  have hchain' : chain (discard s n) = queue s := by
    rw [chain, if_neg (show (discard s n).tail ≠ .stub from hn_stub), hqueue]
  have hpend : s.pending .stub = none := (h.stored _).resolve_left (by simp [hn])
  have hlink := link_clear s hpend
  refine ⟨⟨h.stub_not_mem, h.nodup, htaken ▸ h.taken_initial, ?_, ?_, ?_, ?_, ?_⟩,
    fifoStep_of_eq rfl htaken⟩
  · rw [hchain']
    refine Seg.congr hseg.2 (fun q hq => ?_)
    rw [show (discard s n).link q = _ from hlink q, if_neg (ne_of_mem_of_not_mem hq h.stub_not_mem_queue)]
  · have hlast := h.last
    rw [hchain, hQ, List.getLast?_cons_cons, ← hQ] at hlast
    rw [hchain']
    exact hlast
  · intro a ha hh
    rw [hchain'] at ha
    rw [show (discard s n).link a = _ from hlink a]
    split
    · rfl
    · exact h.outside a (by rw [hchain, List.mem_cons, not_or]; exact ⟨‹_›, ha⟩) (by simp [hs])
  · intro a
    by_cases ha : a = .stub
    · subst ha
      simp [discard]
    · simpa [discard, Function.update_of_ne ha] using h.stored a
  · exact ⟨rfl, hn_stub⟩

/-- The compare-and-swap of `head_` back to the stub succeeds only when `tail_` is the last node:
the queue empties, and the stub stands alone on the chain. -/
theorem inv_popLast {t : Node α} (hpc : s.pc = .casHead t) (hh : s.head = t) :
    Inv (popLast s t) ∧ FifoStep s (popLast s t) := by
  have hok := h.pc
  rw [hpc] at hok
  obtain ⟨ht, hts⟩ := hok
  have hchain : chain s = queue s := by simp [chain, ht, hts]
  obtain ⟨L, hL, -⟩ := h.seg.exists_cons
  rw [ht] at hL
  -- `t` is both the first and the last node of the chain, so it is alone there
  have hL0 : L = [] := by
    obtain ⟨M, hM, hnot⟩ := h.chain_eq_append_head
    rw [hL, hh] at hM
    cases L with
    | nil => rfl
    | cons b L' =>
      exfalso
      cases M with
      | nil => simp at hM
      | cons c M' =>
        obtain ⟨rfl, -⟩ := List.cons_eq_cons.mp hM
        exact hnot (by simp [hh])
  have hq : queue s = [t] := by rw [← hchain, hL, hL0]
  have hs : s.pc.held = [] := by simp [hpc, Pc.held]
  have htaken : taken (popLast s t) = taken s ++ [t] := by
    show s.returned ++ [t] ++ [] = s.returned ++ s.pc.held ++ [t]
    rw [hs, List.append_nil, List.append_nil]
  have hqueue : queue (popLast s t) = [] := by
    show s.pushed.drop (taken (popLast s t)).length = []
    rw [htaken, ← h.taken_append_queue, hq, List.drop_length]
  have hchain' : chain (popLast s t) = [.stub] := by
    rw [chain, if_pos (show (popLast s t).tail = .stub from rfl), hqueue]
  have hstub : s.link .stub = none :=
    h.outside _ (by rw [hchain, hq, List.mem_singleton]; exact fun e => hts e.symm) (by simp [hs])
  refine ⟨⟨h.stub_not_mem, h.nodup, ⟨[], ?_⟩, ?_, ?_, ?_, h.stored, trivial⟩,
    .inr (.inr ⟨t, rfl, htaken, hqueue ▸ hq⟩)⟩
  · rw [List.append_nil, htaken, ← hq, h.taken_append_queue]
    rfl
  · rw [hchain']
    refine .cons Node.stub [] none ?_
    rw [show (popLast s t).link .stub = s.link .stub from rfl, hstub]
    exact .nil none
  · rw [hchain']
    rfl
  · intro a ha _
    rw [hchain', List.mem_singleton] at ha
    by_cases hat : a = t
    · rw [hat, ← hh]
      exact h.link_head
    · exact h.outside a (by rw [hchain, hq, List.mem_singleton]; exact hat) (by simp [hs])

/-- The call clears the `next` of the node it took and returns it. -/
theorem inv_release {t : Node α} (hpc : s.pc = .clearNext t) :
    Inv (release s t) ∧ FifoStep s (release s t) := by
  have hok := h.pc
  rw [hpc] at hok
  obtain ⟨-, -, hpend⟩ := hok
  have hheld : t ∈ s.pc.held := by simp [hpc, Pc.held]
  have htc : t ∉ chain s := h.not_mem_chain_of_held hheld
  have htaken : taken (release s t) = taken s := by
    show s.returned ++ [t] ++ [] = s.returned ++ s.pc.held
    rw [hpc, List.append_nil]
    rfl
  have hqueue : queue (release s t) = queue s := queue_eq_of_taken rfl htaken
  have hchain : chain (release s t) = chain s := by
    rw [chain, chain, hqueue]
    rfl
  have hlink := link_clear s hpend
  refine ⟨⟨h.stub_not_mem, h.nodup, htaken ▸ h.taken_initial, ?_, hchain ▸ h.last, ?_, ?_,
    trivial⟩, fifoStep_of_eq rfl htaken⟩
  · rw [hchain]
    refine Seg.congr h.seg (fun q hq => ?_)
    rw [show (release s t).link q = _ from hlink q, if_neg (ne_of_mem_of_not_mem hq htc)]
  · intro a ha _
    rw [hchain] at ha
    rw [show (release s t).link a = _ from hlink a]
    split
    · rfl
    · exact h.outside a ha (by rw [hpc]; simpa [Pc.held])
  · intro a
    by_cases ha : a = t
    · subst ha
      simp [release]
    · simpa [release, Function.update_of_ne ha] using h.stored a

/-- The first load of a call, or the load after the stub left: the happy path takes `tail`,
otherwise the call goes on to load `head_`. -/
theorem inv_afterLoad {t : Node α} (hs : s.pc.held = []) (ht : s.tail = t) (hts : t ≠ .stub) :
    Inv (afterLoad s t (s.next t)) ∧ FifoStep s (afterLoad s t (s.next t)) := by
  cases hn : s.next t with
  | some n => exact inv_take h hs ht hts hn
  | none => exact inv_setPc h hs rfl ⟨ht, hts⟩

/-- A push after `tail` has not stored yet: the weak call gives up, the blocking one spins. -/
theorem inv_waitFor {t : Node α} (hs : s.pc.held = []) (ht : s.tail = t) (hts : t ≠ .stub)
    (hh : s.head ≠ t) : Inv (waitFor s t).2 ∧ FifoStep s (waitFor s t).2 := by
  unfold waitFor
  split
  · exact inv_setPc h hs rfl trivial
  · exact inv_setPc h hs rfl ⟨ht, hts, hh⟩

/-- The consumer's next access within its call keeps the invariant. -/
theorem inv_consume : Inv (consume s).2 ∧ FifoStep s (consume s).2 := by
  have hpc := h.pc
  unfold consume
  cases hp : s.pc <;> rw [hp] at hpc <;> dsimp only
  case idle => exact ⟨h, fifoStep_of_eq rfl rfl⟩
  case loadHeadOfStub =>
    have hs : s.pc.held = [] := by rw [hp]; rfl
    split
    · exact inv_setPc h hs rfl trivial
    · exact inv_setPc h hs rfl ⟨hpc, ‹_›⟩
  case spinStub =>
    have hs : s.pc.held = [] := by rw [hp]; rfl
    cases hn : s.next .stub with
    | none => exact ⟨h, fifoStep_of_eq rfl rfl⟩
    | some n => exact inv_setPc h hs rfl ⟨hpc.1, hn⟩
  case discardStub n => exact inv_discard h hp
  case loadNext t =>
    have hs : s.pc.held = [] := by rw [hp]; rfl
    exact inv_afterLoad h hs hpc.1 hpc.2
  case loadHead t =>
    have hs : s.pc.held = [] := by rw [hp]; rfl
    split
    · exact inv_setPc h hs rfl hpc
    · exact inv_waitFor h hs hpc.1 hpc.2 ‹_›
  case casHead t =>
    have hs : s.pc.held = [] := by rw [hp]; rfl
    split
    · exact inv_popLast h hp ‹_›
    · exact inv_waitFor h hs hpc.1 hpc.2 ‹_›
  case spinTail t =>
    have hs : s.pc.held = [] := by rw [hp]; rfl
    cases hn : s.next t with
    | none => exact ⟨h, fifoStep_of_eq rfl rfl⟩
    | some n => exact inv_take h hs hpc.1 hpc.2.1 hn
  case clearNext t => exact inv_release h hp

/-- A call of `DoTryPop`, up to its first load, keeps the invariant. -/
theorem inv_tryPop (hidle : s.pc = .idle) (m : PopMode) :
    Inv (tryPop s m).2 ∧ FifoStep s (tryPop s m).2 := by
  have h' := inv_setMode h m
  have hs : ({ s with mode := m } : State α).pc.held = [] := by
    show s.pc.held = []
    rw [hidle]
    rfl
  -- the mode is no part of the abstract queue
  have hfifo {s' : State α} (hs' : FifoStep { s with mode := m } s') : FifoStep s s' := hs'
  by_cases ht : s.tail = .stub
  · cases hn : s.next .stub with
    | none =>
      by_cases hm : m = .weak
      · have e : (tryPop s m).2 = { s with mode := m } := by simp [tryPop, ht, hn, hm]
        rw [e]
        exact ⟨h', fifoStep_of_eq rfl rfl⟩
      · have e : (tryPop s m).2 = { s with mode := m, pc := .loadHeadOfStub } := by
          simp [tryPop, ht, hn, hm]
        rw [e]
        exact (inv_setPc h' (p := .loadHeadOfStub) hs rfl ht).imp id hfifo
    | some n =>
      have e : (tryPop s m).2 = { s with mode := m, pc := .discardStub n } := by
        simp [tryPop, ht, hn]
      rw [e]
      exact (inv_setPc h' (p := .discardStub n) hs rfl ⟨ht, hn⟩).imp id hfifo
  · have e : (tryPop s m).2 = afterLoad { s with mode := m } s.tail (s.next s.tail) := by
      simp [tryPop, ht]
    rw [e]
    exact (inv_afterLoad h' hs rfl ht).imp id hfifo

/-- Every step of every thread keeps the invariant, and is a step of the abstract FIFO queue. -/
theorem inv_step (a : Action α) : Inv (step s a).2 ∧ FifoStep s (step s a).2 := by
  cases a with
  | getBackAndPush x =>
    dsimp only [step]
    split
    · exact ⟨h, fifoStep_of_eq rfl rfl⟩
    · exact inv_exchange h ‹_›
  | pushIfEmpty x =>
    dsimp only [step]
    split
    · exact ⟨h, fifoStep_of_eq rfl rfl⟩
    · unfold pushIfEmpty
      split
      · exact inv_exchange h ‹_›
      · exact ⟨h, fifoStep_of_eq rfl rfl⟩
  | store prev =>
    dsimp only [step, store]
    split
    · exact ⟨h, fifoStep_of_eq rfl rfl⟩
    · exact inv_storeNext h ‹_›
  | tryPop m =>
    dsimp only [step]
    split
    · exact inv_tryPop h ‹_› m
    · exact ⟨h, fifoStep_of_eq rfl rfl⟩
  | consumer => exact inv_consume h

end Transitions

/-- The run lemma: every state of every interleaving satisfies the invariant. -/
theorem Reachable.inv {s : State α} (hs : Reachable s) : Inv s :=
  Machine.Reachable.invariant Inv inv_init (fun _ a h => (inv_step h a).1) hs

end IntrusiveMpscQueue

end Concurrent

end Userver
