import Mathlib

/-!
# Prefix codecs over token streams

A decoder reads a value from the front of a token stream and leaves the tokens after it: a state
monad over the rest of the stream that may fail.  `ReadsBack dec bytes a` says that `dec` reads
`a` from `bytes` whatever follows them, which is the round-trip property of a serialization
format that is read back in place.  The combinators of a format (sequencing, fixed-size reads,
size-prefixed repetition) each keep it, so the property of a whole format follows by induction
over its structure.

Fixed-width integers are stored as little-endian base-256 digits (`leBytes`, `leValue`); a
big-endian field is the same digits reversed.
-/

namespace Codec

variable {σ ε α β : Type}

/-- A decoder: the state is what is left of the stream. -/
abbrev Decoder (σ ε α : Type) := StateT (List σ) (Except ε) α

/-- `dec` reads `a` from `bytes` and leaves whatever follows them. -/
def ReadsBack (dec : Decoder σ ε α) (bytes : List σ) (a : α) : Prop :=
  ∀ rest, dec.run (bytes ++ rest) = .ok (a, rest)

theorem ReadsBack.pure (a : α) : ReadsBack (pure a : Decoder σ ε α) [] a :=
  fun _ => rfl

theorem ReadsBack.bind {d : Decoder σ ε α} {k : α → Decoder σ ε β} {bs bs' : List σ} {a : α}
    {b : β} (h : ReadsBack d bs a) (hk : ReadsBack (k a) bs' b) :
    ReadsBack (d >>= k) (bs ++ bs') b := by
  intro rest
  have h1 := h (bs' ++ rest)
  have h2 := hk rest
  simp only [StateT.run] at h1 h2 ⊢
  rw [List.append_assoc]
  change (d (bs ++ (bs' ++ rest)) >>= fun p => k p.1 p.2) = _
  rw [h1]
  exact h2

theorem ReadsBack.map {d : Decoder σ ε α} {bs : List σ} {a : α} (f : α → β)
    (h : ReadsBack d bs a) : ReadsBack (f <$> d) bs (f a) := by
  intro rest
  have h1 := h rest
  simp only [StateT.run] at h1 ⊢
  change (d (bs ++ rest) >>= fun p => Except.ok (f p.1, p.2)) = _
  rw [h1]
  rfl

@[simp] theorem ok_bind (a : α) (f : α → Except ε β) : (Except.ok a >>= f) = f a := rfl

/-- A step of an encoder ran: the first failure, or the encoded output. -/
theorem bind_eq_ok {x : Except ε α} {f : α → Except ε β} {b : β} :
    x >>= f = .ok b ↔ ∃ a, x = .ok a ∧ f a = .ok b := by
  cases x with
  | error e => simp [bind, Except.bind]
  | ok a => simp [bind, Except.bind]

theorem bind_eq_error {x : Except ε α} {f : α → Except ε β} {e : ε} :
    x >>= f = .error e ↔ x = .error e ∨ ∃ a, x = .ok a ∧ f a = .error e := by
  cases x with
  | error e' => simp [bind, Except.bind]
  | ok a => simp [bind, Except.bind]

theorem map_eq_ok {x : Except ε α} {f : α → β} {b : β} :
    f <$> x = .ok b ↔ ∃ a, x = .ok a ∧ f a = b := by
  cases x with
  | error e => simp [Functor.map, Except.map]
  | ok a => simp [Functor.map, Except.map]

/-- A decoder that ran in two steps: the first one's value and what it left, then the rest. -/
theorem run_bind_eq_ok {d : Decoder σ ε α} {k : α → Decoder σ ε β} {s s' : List σ} {b : β} :
    (d >>= k).run s = .ok (b, s') ↔ ∃ a s₁, d.run s = .ok (a, s₁) ∧ (k a).run s₁ = .ok (b, s') := by
  rw [StateT.run_bind, bind_eq_ok]
  constructor
  · rintro ⟨⟨a, s₁⟩, h1, h2⟩
    exact ⟨a, s₁, h1, h2⟩
  · rintro ⟨a, s₁, h1, h2⟩
    exact ⟨(a, s₁), h1, h2⟩

/-- Read exactly `n` tokens, failing with `eof` when fewer are left. -/
def readExactly (eof : ε) (n : Nat) : Decoder σ ε {bs : List σ // bs.length = n} := fun s =>
  if h : n ≤ s.length then .ok (⟨s.take n, by simp [h]⟩, s.drop n) else .error eof

theorem readsBack_readExactly (eof : ε) (bs : List σ) :
    ReadsBack (readExactly eof bs.length) bs ⟨bs, rfl⟩ := by
  intro rest
  simp [readExactly, StateT.run]

/-- `n` values read one after another. -/
def readMany (d : Decoder σ ε α) : (n : Nat) → Decoder σ ε {as : List α // as.length = n}
  | 0 => Pure.pure ⟨[], rfl⟩
  | n + 1 => do
    let a ← d
    let as ← readMany d n
    Pure.pure ⟨a :: as.1, by simp [as.2]⟩

/-- The values written one after another, or the first failure. -/
def writeMany (w : α → Except ε (List σ)) : List α → Except ε (List σ)
  | [] => .ok []
  | a :: as => do
    let bs ← w a
    let bs' ← writeMany w as
    Pure.pure (bs ++ bs')

/-- `writeMany` succeeds when every item does. -/
theorem writeMany_ok {w : α → Except ε (List σ)} :
    ∀ (as : List α), (∀ a ∈ as, ∃ b, w a = .ok b) → ∃ bs, writeMany w as = .ok bs
  | [], _ => ⟨[], rfl⟩
  | a :: as, h => by
    obtain ⟨b, hb⟩ := h a (by simp)
    obtain ⟨bs, hbs⟩ := writeMany_ok as fun x hx => h x (by simp [hx])
    exact ⟨b ++ bs, by simp [writeMany, hb, hbs]⟩

/-- `readMany` reads back what `writeMany` wrote, when every item is read back. -/
theorem readsBack_readMany_length {w : α → Except ε (List σ)} {d : Decoder σ ε α} :
    ∀ (as : List α) (bs : List σ), writeMany w as = .ok bs →
      (∀ a ∈ as, ∀ b, w a = .ok b → ReadsBack d b a) →
        ReadsBack (readMany d as.length) bs ⟨as, rfl⟩
  | [], bs, hw, _ => by
    cases hw
    exact ReadsBack.pure _
  | a :: as, bs, hw, hitems => by
    simp only [writeMany] at hw
    cases ha : w a with
    | error e => rw [ha] at hw; cases hw
    | ok b =>
      cases has : writeMany w as with
      | error e => rw [ha, has] at hw; cases hw
      | ok bs' =>
        rw [ha, has] at hw
        cases hw
        have hhead := hitems a (by simp) b ha
        have htail := readsBack_readMany_length as bs' has fun x hx => hitems x (by simp [hx])
        have hrest := htail.bind (k := fun xs =>
          (Pure.pure ⟨a :: xs.1, by simp [xs.2]⟩ :
            Decoder σ ε {l : List α // l.length = as.length + 1})) (ReadsBack.pure _)
        rw [List.append_nil] at hrest
        exact hhead.bind hrest

/-- `readMany` of a count equal to the number of values written. -/
theorem readsBack_readMany {w : α → Except ε (List σ)} {d : Decoder σ ε α} {as : List α}
    {bs : List σ} {n : Nat} (hn : as.length = n) (hw : writeMany w as = .ok bs)
    (hitems : ∀ a ∈ as, ∀ b, w a = .ok b → ReadsBack d b a) :
    ReadsBack (readMany d n) bs ⟨as, hn⟩ := by
  subst hn
  exact readsBack_readMany_length as bs hw hitems

/-! ## Fixed-width integers -/

/-- The `n` little-endian base-256 digits of `v mod 256^n`. -/
def leBytes : Nat → Nat → List UInt8
  | 0, _ => []
  | n + 1, v => UInt8.ofNat v :: leBytes n (v / 256)

/-- The value of little-endian base-256 digits. -/
def leValue : List UInt8 → Nat
  | [] => 0
  | b :: bs => b.toNat + 256 * leValue bs

@[simp] theorem length_leBytes (n v : Nat) : (leBytes n v).length = n := by
  induction n generalizing v with
  | zero => rfl
  | succ n ih => simp [leBytes, ih]

theorem leValue_leBytes (n v : Nat) : leValue (leBytes n v) = v % 256 ^ n := by
  induction n generalizing v with
  | zero => simp [leBytes, leValue, Nat.mod_one]
  | succ n ih =>
    calc leValue (leBytes (n + 1) v) = v % 256 + 256 * (v / 256 % 256 ^ n) := by
          rw [leBytes, leValue, ih, UInt8.toNat_ofNat']
      _ = v % 256 ^ (n + 1) := by rw [pow_succ', Nat.mod_mul]

theorem leValue_lt (bs : List UInt8) : leValue bs < 256 ^ bs.length := by
  induction bs with
  | nil => simp [leValue]
  | cons b bs ih =>
    have hb := b.toNat_lt
    simp only [leValue, List.length_cons, pow_succ]
    omega

/-! ## Prefixes of a stream of encodings -/

/-- A proper prefix of the encodings of a list, one after another, is the encodings of the items
before some item followed by a proper prefix of that item's encoding. -/
theorem take_flatMap_of_lt (f : α → List σ) :
    ∀ (l : List α) (n : Nat), n < (l.flatMap f).length →
      ∃ k, ∃ hk : k < l.length, ∃ m < (f l[k]).length,
        (l.flatMap f).take n = (l.take k).flatMap f ++ (f l[k]).take m
  | [], n, h => by simp at h
  | a :: l, n, h => by
    rw [List.flatMap_cons, List.length_append] at h
    rw [List.flatMap_cons, List.take_append]
    by_cases hn : n < (f a).length
    · -- the cut is in the first item
      refine ⟨0, by simp, n, hn, ?_⟩
      simp [show n - (f a).length = 0 by omega]
    · obtain ⟨k, hk, m, hm, htake⟩ := take_flatMap_of_lt f l (n - (f a).length) (by omega)
      refine ⟨k + 1, by simpa using hk, m, hm, ?_⟩
      rw [List.take_of_length_le (by omega), htake]
      simp

end Codec
