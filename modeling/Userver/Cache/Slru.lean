import Userver.Cache.Lru

/-!
# `cache::impl::SlruBase`

`SlruBase` (`slru.hpp`) is a segmented LRU cache made of two `LruBase`s: a probation part for
keys used once and a protected part for keys used again.  `Put` and `Get` of a key in the
probation part take its node out and link it into the protected part, after moving the protected
part's least recently used node back to probation when the protected part is full (`promote`).

`Emplace` of a key in the probation part does something else: it takes the node out, drops it,
and emplaces the new value in the protected part, so it returns the new value and the old one is
lost (`emplace_replaces_probation_value`), where `LruBase::Emplace` returns the value there.
And `InsertNode` links into the probation part whatever its size, so `ExtractNode` of a protected
key followed by `InsertNode` of its node overfills a full probation part
(`extractNode_insertNode_probation_size`).
-/

namespace Userver

namespace Cache

namespace Impl

/-- `SlruBase<T, U>`: `probation_part_` and `protected_part_`. -/
structure SlruBase (T U : Type) where
  probationPart : LruBase T U
  protectedPart : LruBase T U
  deriving DecidableEq, Repr

namespace SlruBase

variable {T U : Type}

/-! ## The member functions -/

/-- The constructor. -/
def new (probationSize protectedSize : Nat) : SlruBase T U :=
  ⟨LruBase.new probationSize, LruBase.new protectedSize⟩

/-- The node taken out of the probation part linked into the protected part; when the protected
part is full its least recently used node goes to the probation part first. -/
def promote (probationPart protectedPart : LruBase T U) (node : LruNode T U) : SlruBase T U :=
  if protectedPart.getSize = protectedPart.getCapacity then
    let demoted := protectedPart.extractLeastUsedNode
    -- `InsertNode` asks for a node, and a full protected part has one
    ⟨demoted.1.elim probationPart probationPart.insertNode, demoted.2.insertNode node⟩
  else ⟨probationPart, protectedPart.insertNode node⟩

/-- `GetLeastUsedKey()`: the probation part's. -/
def getLeastUsedKey (s : SlruBase T U) : Option T := s.probationPart.getLeastUsedKey

/-- `GetLeastUsedValue()`: the probation part's. -/
def getLeastUsedValue (s : SlruBase T U) : Option U := s.probationPart.getLeastUsedValue

/-- `ExtractLeastUsedNode()`: the probation part's. -/
def extractLeastUsedNode (s : SlruBase T U) : Option (LruNode T U) × SlruBase T U :=
  (s.probationPart.extractLeastUsedNode.1,
    { s with probationPart := s.probationPart.extractLeastUsedNode.2 })

/-- `SetMaxSize(new_probation_size, new_protected_size)`. -/
def setMaxSize (s : SlruBase T U) (newProbationSize newProtectedSize : Nat) : SlruBase T U :=
  ⟨s.probationPart.setMaxSize newProbationSize, s.protectedPart.setMaxSize newProtectedSize⟩

/-- `Clear()`. -/
def clear (s : SlruBase T U) : SlruBase T U := ⟨s.probationPart.clear, s.protectedPart.clear⟩

/-- `GetSize()`. -/
def getSize (s : SlruBase T U) : Nat := s.probationPart.getSize + s.protectedPart.getSize

/-- `GetCapacity()`. -/
def getCapacity (s : SlruBase T U) : Nat :=
  s.probationPart.getCapacity + s.protectedPart.getCapacity

/-- `InsertNode(node)`: into the probation part. -/
def insertNode (s : SlruBase T U) (node : LruNode T U) : SlruBase T U :=
  { s with probationPart := s.probationPart.insertNode node }

variable [DecidableEq T]

/-- `*value_ptr = value` through the pointer `Get` returned: the value of the key's node. -/
def assignValue (key : T) (value : U) : List (LruNode T U) → List (LruNode T U)
  | [] => []
  | node :: rest =>
    if node.key = key then { node with value := value } :: rest else node :: assignValue key value rest

/-- `Put(key, value)`: a protected key gets the value; a probation key is promoted with it; a
new key goes to the probation part. -/
def put (s : SlruBase T U) (key : T) (value : U) : Bool × SlruBase T U :=
  match s.protectedPart.get key with
  | (some _, protectedPart) =>
    (false, { s with protectedPart := { protectedPart with
      list := assignValue key value protectedPart.list } })
  | (none, protectedPart) =>
    match s.probationPart.extractNode key with
    | (some node, probationPart) =>
      (false, promote probationPart protectedPart { node with value := value })
    | (none, probationPart) =>
      ((probationPart.put key value).1, ⟨(probationPart.put key value).2, protectedPart⟩)

/-- `Emplace(key, args...)`, with the value `U{args...}`.  A node taken out of the probation part
is dropped, and the protected part emplaces the new value. -/
def emplace (moveAssignable : Bool) (s : SlruBase T U) (key : T) (value : U) :
    U × SlruBase T U :=
  match s.protectedPart.get key with
  | (some existing, protectedPart) => (existing, { s with protectedPart := protectedPart })
  | (none, protectedPart) =>
    match s.probationPart.extractNode key with
    | (some _, probationPart) =>
      ((protectedPart.emplace moveAssignable key value).1,
        ⟨probationPart, (protectedPart.emplace moveAssignable key value).2⟩)
    | (none, probationPart) =>
      ((probationPart.emplace moveAssignable key value).1,
        ⟨(probationPart.emplace moveAssignable key value).2, protectedPart⟩)

/-- `Erase(key)`: from both parts. -/
def erase (s : SlruBase T U) (key : T) : SlruBase T U :=
  ⟨s.probationPart.erase key, s.protectedPart.erase key⟩

/-- `Get(key)`: a protected key is used there; a probation key is promoted. -/
def get (s : SlruBase T U) (key : T) : Option U × SlruBase T U :=
  match s.protectedPart.get key with
  | (some value, protectedPart) => (some value, { s with protectedPart := protectedPart })
  | (none, protectedPart) =>
    match s.probationPart.extractNode key with
    | (some node, probationPart) => (some node.value, promote probationPart protectedPart node)
    | (none, probationPart) => (none, ⟨probationPart, protectedPart⟩)

/-- `ExtractNode(key)`: from the protected part, else from the probation part. -/
def extractNode (s : SlruBase T U) (key : T) : Option (LruNode T U) × SlruBase T U :=
  match s.protectedPart.extractNode key with
  | (some node, protectedPart) => (some node, { s with protectedPart := protectedPart })
  | (none, protectedPart) =>
    ((s.probationPart.extractNode key).1, ⟨(s.probationPart.extractNode key).2, protectedPart⟩)

/-! ## `Emplace` of a probation key -/

/-- `Emplace` of a key in the probation part returns the new value, not the one there, and `Get`
then finds the new value: the old one is lost. -/
theorem emplace_replaces_probation_value (moveAssignable : Bool) (s : SlruBase T U) {key : T}
    {old : U} (value : U) (hprotected : s.protectedPart.find key = none)
    (hprobation : s.probationPart.find key = some ⟨key, old⟩) :
    (s.emplace moveAssignable key value).1 = value ∧
      ((s.emplace moveAssignable key value).2.get key).1 = some value := by
  have hextract : s.probationPart.extractNode key =
      (some ⟨key, old⟩, s.probationPart.unlink key) := by
    rw [LruBase.extractNode_eq, hprobation]
  -- the protected part emplaces the value as a new key
  have hemplace := LruBase.emplace_of_find_none hprotected moveAssignable value
  have hrun : s.emplace moveAssignable key value =
      (value, ⟨s.probationPart.unlink key, s.protectedPart.add key value⟩) := by
    rw [emplace, LruBase.get_of_find_none hprotected, hextract]
    simp only [hemplace]
  refine ⟨by rw [hrun], ?_⟩
  rw [hrun]
  dsimp only
  rw [get, LruBase.get_of_find_some (LruBase.find_add_self hprotected value)]

/-- `Put` of `1` and `Emplace` of `1` with another value, on a new cache with parts of one
entry each. -/
theorem emplace_replaces_probation_value_after_put :
    let s : SlruBase Nat Nat := ((SlruBase.new 1 1).put 1 10).2
    s.protectedPart.find 1 = none ∧ s.probationPart.find 1 = some ⟨1, 10⟩ ∧
      (s.emplace true 1 20).1 = 20 ∧ ((s.emplace true 1 20).2.get 1).1 = some 20 :=
  ⟨by decide, by decide,
    @emplace_replaces_probation_value Nat Nat _ true _ 1 10 20 (by decide) (by decide)⟩

/-! ## `ExtractNode` and `InsertNode` -/

/-- `ExtractNode` of a protected key followed by `InsertNode` of its node adds one node to the
probation part, whatever its size. -/
theorem extractNode_insertNode_probation_size (s : SlruBase T U) {key : T}
    {node : LruNode T U} (hprotected : s.protectedPart.find key = some node) :
    (s.extractNode key).1 = some node ∧
      ((s.extractNode key).2.insertNode node).probationPart.getSize =
        s.probationPart.getSize + 1 := by
  have hextract : s.protectedPart.extractNode key =
      (some node, s.protectedPart.unlink key) := by
    rw [LruBase.extractNode_eq, hprotected]
  rw [extractNode, hextract]
  exact ⟨rfl, LruBase.insertNode_getSize _ _⟩

end SlruBase

end Impl

end Cache

end Userver
