import Userver.Concurrent.IntrusiveMpscQueueInvariant

/-!
# `IntrusiveMpscQueueImpl`: the contract of the header

The header promises a linearizable FIFO queue whose `TryPopBlocking` returns `nullptr` only when
the queue is logically empty, whose `GetBackAndPush` returns the newest node pushed before it,
whose `PushIfEmpty` pushes only into an empty queue, and whose nodes "may be freed immediately
after TryPop".  Each promise is a theorem over every state of every interleaving (`Reachable`):

* `returned_prefix_pushed`: the calls return the pushed nodes in the order of their exchanges on
  `head_`, each at most once, never the stub;
* `links_from_tail`: nothing is lost: the links from `tail_` carry every node pushed and not
  taken, oldest first, up to `head_`;
* `step_linearizes`: every step is a step of the abstract FIFO queue, a push at its exchange and a
  pop when it moves `tail_`;
* `tryPopBlocking_null_only_when_empty`, `getBackAndPush_returns_newest`,
  `pushIfEmpty_iff_empty`: the answers of the calls, read against the abstract queue;
* `spin_waits_on_owed_store`: the consumer spins only on a node into which a producer owes its
  store, and that store ends the spin;
* `returned_unreferenced`: the queue keeps no reference to a node it has returned;
* `head_next_null`: the assertions of the code on null `next` pointers hold.
-/

namespace Userver

namespace Concurrent

namespace IntrusiveMpscQueue

variable {α : Type} [DecidableEq α]

/-! ## What the steps answer -/

section Answers

variable (s : State α)

theorem mode_tryPop (m : PopMode) : (tryPop s m).2.mode = m := by
  unfold tryPop
  dsimp only
  split
  · split
    · split <;> rfl
    · rfl
  · unfold afterLoad
    split <;> rfl

theorem mode_consume : (consume s).2.mode = s.mode := by
  unfold consume
  split
  all_goals first
    | rfl
    | (split <;> first | rfl | (unfold waitFor; split <;> rfl))
    | (unfold afterLoad; split <;> rfl)

/-- A pop answers `nullptr` at its first load only in the weak mode. -/
theorem tryPop_null {m : PopMode} (h : (tryPop s m).1 = some (.popped none)) : m = .weak := by
  unfold tryPop at h
  dsimp only at h
  split at h
  · split at h
    · split at h
      · assumption
      · simp at h
    · simp at h
  · simp at h

omit [DecidableEq α] in
theorem waitFor_null {t : Node α} (h : (waitFor s t).1 = some (.popped none)) : s.mode = .weak := by
  unfold waitFor at h
  split at h
  · assumption
  · simp at h

/-- Within a call, the answer `nullptr` comes from the weak mode giving up, or from the check
that `head_` is the stub. -/
theorem consume_null (h : (consume s).1 = some (.popped none)) :
    s.mode = .weak ∨ (s.pc = .loadHeadOfStub ∧ s.head = .stub) := by
  unfold consume at h
  split at h
  · simp at h
  · split at h
    · exact .inr ⟨‹_›, ‹_›⟩
    · simp at h
  · split at h <;> simp at h
  · simp at h
  · simp at h
  · split at h
    · simp at h
    · exact .inl (waitFor_null s h)
  · split at h
    · simp at h
    · exact .inl (waitFor_null s h)
  · split at h <;> simp at h
  · simp at h

end Answers

/-! ## The contract -/

/-- FIFO, at most once, nothing invented: the nodes the consumer's calls have returned are the
first of the pushed nodes, in the order of their exchanges on `head_`; the stub is never
returned. -/
theorem returned_prefix_pushed {s : State α} (hs : Reachable s) :
    s.returned <+: s.pushed ∧ .stub ∉ s.returned := by
  have h := hs.inv
  have hpre : s.returned <+: s.pushed := (List.prefix_append _ _).trans h.taken_initial
  exact ⟨hpre, fun hm => h.stub_not_mem (hpre.subset hm)⟩

/-- Two pushes, a weak pop that empties the queue through the compare-and-swap. -/
theorem returned_prefix_pushed_after_cas :
    (Machine.run step (init : State ℕ) [.getBackAndPush 1, .store .stub, .tryPop .weak, .consumer,
        .consumer, .consumer, .consumer]).2.returned <+:
      (Machine.run step (init : State ℕ) [.getBackAndPush 1, .store .stub, .tryPop .weak, .consumer,
        .consumer, .consumer, .consumer]).2.pushed ∧
    .stub ∉ (Machine.run step (init : State ℕ) [.getBackAndPush 1, .store .stub, .tryPop .weak,
        .consumer, .consumer, .consumer, .consumer]).2.returned :=
  returned_prefix_pushed ⟨_, rfl⟩

/-- Nothing is lost: following the links from `tail_` (each `next`, or the store a producer owes
into it) visits the stub when `tail_` is the stub, then every pushed node the consumer has not
taken, oldest first, and ends at null; the last node is `head_`. -/
theorem links_from_tail {s : State α} (hs : Reachable s) :
    Seg s.link (some s.tail) (chain s) none ∧ (chain s).getLast? = some s.head :=
  ⟨hs.inv.seg, hs.inv.last⟩

theorem links_from_tail_after_push :
    Seg (Machine.run step (init : State ℕ) [.getBackAndPush 1]).2.link
        (some (Machine.run step (init : State ℕ) [.getBackAndPush 1]).2.tail)
        (chain (Machine.run step (init : State ℕ) [.getBackAndPush 1]).2) none ∧
      (chain (Machine.run step (init : State ℕ) [.getBackAndPush 1]).2).getLast? =
        some (Machine.run step (init : State ℕ) [.getBackAndPush 1]).2.head :=
  links_from_tail ⟨_, rfl⟩

/-- Linearizability: every step of every thread is a step of the abstract FIFO queue.  A push
enqueues its node at its exchange on `head_` (or at the compare-and-swap of `PushIfEmpty`), a pop
dequeues the oldest node when it moves `tail_` past it (or at its compare-and-swap of `head_`),
and every other step leaves the queue and the history as they are. -/
theorem step_linearizes {s : State α} (hs : Reachable s) (a : Action α) :
    FifoStep s (step s a).2 :=
  (inv_step hs.inv a).2

theorem step_linearizes_store :
    FifoStep (Machine.run step (init : State ℕ) [.getBackAndPush 1]).2
      (step (Machine.run step (init : State ℕ) [.getBackAndPush 1]).2 (.store .stub)).2 :=
  step_linearizes ⟨_, rfl⟩ _

/-- `TryPopBlocking` returns `nullptr` only when the queue is logically empty at the step that
answers: every node pushed so far has been returned. -/
theorem tryPopBlocking_null_only_when_empty {s : State α} {a : Action α} (hs : Reachable s)
    (hnull : (step s a).1 = some (.popped none)) (hm : (step s a).2.mode = .rarelyBlocking) :
    queue s = [] ∧ s.returned = s.pushed := by
  have h := hs.inv
  -- only the check of `head_` with the stub as `tail_` answers `nullptr` in the blocking mode
  have hcheck : s.pc = .loadHeadOfStub ∧ s.head = .stub := by
    cases a with
    | getBackAndPush x =>
      simp only [step] at hnull
      split at hnull <;> simp [getBackAndPush] at hnull
    | pushIfEmpty x =>
      simp only [step] at hnull
      split at hnull
      · simp at hnull
      · unfold pushIfEmpty at hnull
        split at hnull <;> simp at hnull
    | store prev =>
      simp only [step, store] at hnull
      split at hnull <;> simp at hnull
    | tryPop m =>
      by_cases hidle : s.pc = .idle
      · simp only [step, if_pos hidle] at hnull hm
        rw [mode_tryPop] at hm
        exact absurd (tryPop_null s hnull) (by rw [hm]; simp)
      · simp [step, if_neg hidle] at hnull
    | consumer =>
      simp only [step] at hnull hm
      rw [mode_consume] at hm
      exact (consume_null s hnull).resolve_left (by rw [hm]; simp)
  have hq : queue s = [] := h.queue_eq_nil_iff.mpr hcheck.2
  have htaken : taken s = s.returned := by simp [taken, hcheck.1, Pc.held]
  refine ⟨hq, ?_⟩
  rw [← htaken, ← h.taken_append_queue, hq, List.append_nil]

theorem tryPopBlocking_null_only_when_empty_at_start :
    queue (Machine.run step (init : State ℕ) [.tryPop .rarelyBlocking]).2 = [] ∧
      (Machine.run step (init : State ℕ) [.tryPop .rarelyBlocking]).2.returned =
        (Machine.run step (init : State ℕ) [.tryPop .rarelyBlocking]).2.pushed :=
  tryPopBlocking_null_only_when_empty (a := .consumer) ⟨_, rfl⟩ (by decide) (by decide)

/-- `GetBackAndPush` returns the newest node of the queue at its exchange, and `nullptr` when the
queue is empty. -/
theorem getBackAndPush_returns_newest {s : State α} {x : α} (hs : Reachable s)
    (hx : .item x ∉ s.pushed) :
    (step s (.getBackAndPush x)).1 = some (.pushed (queue s).getLast?) := by
  rw [hs.inv.getLast?_queue]
  simp [step, hx, getBackAndPush]

theorem getBackAndPush_returns_newest_second :
    (step (Machine.run step (init : State ℕ) [.getBackAndPush 1]).2 (.getBackAndPush 2)).1 =
      some (.pushed (queue (Machine.run step (init : State ℕ) [.getBackAndPush 1]).2).getLast?) :=
  getBackAndPush_returns_newest ⟨_, rfl⟩ (by decide)

/-- `PushIfEmpty` succeeds exactly when the queue is empty at its compare-and-swap, and then the
queue holds its node alone; otherwise the queue is left as it is. -/
theorem pushIfEmpty_iff_empty {s : State α} {x : α} (hs : Reachable s) (hx : .item x ∉ s.pushed) :
    (step s (.pushIfEmpty x)).1 = some (.pushIfEmpty (queue s).isEmpty) ∧
      queue (step s (.pushIfEmpty x)).2 = if (queue s).isEmpty then [.item x] else queue s := by
  have h := hs.inv
  by_cases hh : s.head = .stub
  · have hq : queue s = [] := h.queue_eq_nil_iff.mpr hh
    simp [step, hx, pushIfEmpty, hh, hq, h.queue_exchange]
  · have hq : queue s ≠ [] := fun e => hh (h.queue_eq_nil_iff.mp e)
    simp [step, hx, pushIfEmpty, hh, hq]

theorem pushIfEmpty_iff_empty_at_start :
    (step (init : State ℕ) (.pushIfEmpty 1)).1 = some (.pushIfEmpty (queue (init : State ℕ)).isEmpty) ∧
      queue (step (init : State ℕ) (.pushIfEmpty 1)).2 =
        if (queue (init : State ℕ)).isEmpty then [.item 1] else queue (init : State ℕ) :=
  pushIfEmpty_iff_empty ⟨[], rfl⟩ (by decide)

/-- The node whose `next` a spinning call loads over and over. -/
def Pc.waitsOn : Pc α → Option (Node α)
  | .spinStub => some .stub
  | .spinTail t => some t
  | _ => none

/-- The queue is "slightly blocking": the consumer spins on a null `next` only while a producer
owes its store into it, and once that producer stores, the consumer's next step leaves the
spin. -/
theorem spin_waits_on_owed_store {s : State α} {w : Node α} (hs : Reachable s)
    (hw : s.pc.waitsOn = some w) (hn : s.next w = none) :
    ∃ n, s.pending w = some n ∧ (step (step s (.store w)).2 .consumer).2.pc.waitsOn = none := by
  have h := hs.inv
  have hpc := h.pc
  -- the node waited on is `tail_`, which is not `head_`
  have htw : s.tail = w ∧ s.head ≠ w := by
    cases hp : s.pc <;> rw [hp] at hpc <;> simp [Pc.waitsOn, hp] at hw
    · exact ⟨hpc.1.trans hw, hw ▸ hpc.2⟩
    · exact ⟨hpc.1.trans hw, hw ▸ hpc.2.2⟩
  obtain ⟨n, hl⟩ := h.exists_link_tail (htw.1 ▸ htw.2)
  rw [htw.1] at hl
  have hpend : s.pending w = some n := by simpa [State.link, hn] using hl
  refine ⟨n, hpend, ?_⟩
  have hstore : (step s (.store w)).2 = storeNext s w n := by simp [step, store, hpend]
  rw [hstore]
  cases hp : s.pc <;> simp [Pc.waitsOn, hp] at hw
  · subst hw
    simp [step, consume, storeNext, hp, Pc.waitsOn]
  · subst hw
    simp [step, consume, storeNext, hp, take, Pc.waitsOn]

theorem spin_waits_on_owed_store_second_push :
    ∃ n, (Machine.run step (init : State ℕ) [.getBackAndPush 1, .store .stub,
        .tryPop .rarelyBlocking, .consumer, .getBackAndPush 2, .consumer, .consumer]).2.pending
          (.item 1) = some n ∧
      (step (step (Machine.run step (init : State ℕ) [.getBackAndPush 1, .store .stub,
        .tryPop .rarelyBlocking, .consumer, .getBackAndPush 2, .consumer, .consumer]).2
          (.store (.item 1))).2 .consumer).2.pc.waitsOn = none :=
  spin_waits_on_owed_store ⟨_, rfl⟩ (by decide) (by decide)

/-- The nodes the consumer's current call holds in its local variables. -/
def Pc.locals : Pc α → List (Node α)
  | .idle => []
  | .loadHeadOfStub | .spinStub => [.stub]
  | .discardStub n => [.stub, n]
  | .loadNext t | .loadHead t | .casHead t | .spinTail t | .clearNext t => [t]

/-- Nodes may be freed as soon as a pop returns them: the queue keeps no reference to a returned
node, neither in `head_` or `tail_`, nor in the consumer's locals, nor in a `next` pointer or a
store a producer owes, and the node's own `next` is null. -/
theorem returned_unreferenced {s : State α} {t : Node α} (hs : Reachable s)
    (ht : t ∈ s.returned) :
    s.head ≠ t ∧ s.tail ≠ t ∧ t ∉ s.pc.locals ∧ s.next t = none ∧ s.pending t = none ∧
      ∀ a, s.next a ≠ some t ∧ s.pending a ≠ some t := by
  have h := hs.inv
  have htaken : t ∈ taken s := List.mem_append_left _ ht
  have htc : t ∉ chain s := h.not_mem_chain_of_taken htaken
  have hheld : t ∉ s.pc.held := by
    have hnd : (taken s).Nodup := h.nodup.sublist h.taken_initial.sublist
    exact List.disjoint_of_nodup_append hnd ht
  have hts : t ≠ .stub := fun e => h.stub_not_mem (e ▸ h.taken_initial.subset htaken)
  have hne {a : Node α} (ha : a ∈ chain s) : a ≠ t := fun e => htc (e ▸ ha)
  have hlink {a : Node α} (ha : s.link a = some t) : False := htc (h.link_mem_chain ha)
  obtain ⟨hnext, hpend⟩ := link_eq_none.mp (h.outside t htc hheld)
  refine ⟨hne h.head_mem_chain, hne h.tail_mem_chain, ?_, hnext, hpend, fun a => ⟨?_, ?_⟩⟩
  · -- the locals are `tail_`, the stub, a node on the chain, or the node the call holds
    have hpc := h.pc
    cases hp : s.pc <;> rw [hp] at hpc <;> simp only [Pc.locals, List.mem_cons, List.not_mem_nil, or_false]
    case idle => exact not_false
    case loadHeadOfStub => exact hts
    case spinStub => exact hts
    case discardStub n =>
      rintro (e | e)
      · exact hts e
      · exact hlink (e ▸ link_of_next hpc.2)
    case loadNext t' => exact fun e => hne h.tail_mem_chain (hpc.1.trans e.symm)
    case loadHead t' => exact fun e => hne h.tail_mem_chain (hpc.1.trans e.symm)
    case casHead t' => exact fun e => hne h.tail_mem_chain (hpc.1.trans e.symm)
    case spinTail t' => exact fun e => hne h.tail_mem_chain (hpc.1.trans e.symm)
    case clearNext t' => exact fun e => hheld (by rw [hp, e]; exact List.mem_singleton_self _)
  · exact fun e => hlink (link_of_next e)
  · intro e
    rcases h.stored a with hn | hn
    · exact hlink (a := a) (by simp [State.link, hn, e])
    · rw [hn] at e
      exact absurd e (by simp)

theorem returned_unreferenced_after_cas :
    let s := (Machine.run step (init : State ℕ) [.getBackAndPush 1, .store .stub, .tryPop .weak,
      .consumer, .consumer, .consumer, .consumer]).2
    s.head ≠ .item 1 ∧ s.tail ≠ .item 1 ∧ .item 1 ∉ s.pc.locals ∧ s.next (.item 1) = none ∧
      s.pending (.item 1) = none ∧ ∀ a, s.next a ≠ some (.item 1) ∧ s.pending a ≠ some (.item 1) :=
  returned_unreferenced ⟨_, rfl⟩ (by decide)

/-- The assertions of the code on `next` hold: `head_`'s `next` is null and no producer owes a
store into it (checked after the compare-and-swap of `DoTryPop`, whose `tail` was `head_`), and a
node never pushed has a null `next` (checked on entry to `GetBackAndPush` and `PushIfEmpty`). -/
theorem head_next_null {s : State α} (hs : Reachable s) :
    s.next s.head = none ∧ s.pending s.head = none ∧
      ∀ x, .item x ∉ s.pushed → s.next (.item x) = none := by
  have h := hs.inv
  obtain ⟨hnext, hpend⟩ := link_eq_none.mp h.link_head
  exact ⟨hnext, hpend, fun x hx => (link_eq_none.mp (h.link_fresh hx)).1⟩

theorem head_next_null_after_push :
    let s := (Machine.run step (init : State ℕ) [.getBackAndPush 1]).2
    s.next s.head = none ∧ s.pending s.head = none ∧
      ∀ x, .item x ∉ s.pushed → s.next (.item x) = none :=
  head_next_null ⟨_, rfl⟩

end IntrusiveMpscQueue

end Concurrent

end Userver
