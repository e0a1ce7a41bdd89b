import Userver.Digest.RoundTrip

/-!
# The digest authentication checker

`AuthCheckerBase::CheckAuth` (`auth_checker_base.cpp`) over the storage of
`AuthStandaloneCheckerBase` (`standalone_checker.cpp`): the `NonceInfo` of each user in
`user_data_`, and the "unnamed" nonces of challenges sent to clients that gave no
`Authorization` header, kept in an expirable cache whose max lifetime is `nonce_ttl`.

A call is a computation in `CheckM`: it reads and writes the storage, and its writes stay when it
throws, as they do in the source.  The hash of the configured algorithm, the HA1 of each user and
the server secret are parameters of the checker; the wall clock and the steady clock are one
clock `now`, in milliseconds.

`checkAuth_first_request_empty_nonce`: a registered user's first request, before any nonce was
issued, succeeds with the nonce `""`, since `FetchUserData` stores and returns a default
`NonceInfo` whose nonce is empty.
-/

namespace Userver

namespace Digest

open ClientDirectiveTypes

/-- `NonceInfo`. -/
structure NonceInfo where
  nonce : List UInt8
  expirationTime : Nat
  nonceCount : Int
  deriving DecidableEq, Repr

/-- `UserData`. -/
structure UserData where
  ha1 : List UInt8
  nonce : List UInt8
  timestamp : Nat
  nonceCount : Int
  deriving DecidableEq, Repr

/-- The storage of an `AuthStandaloneCheckerBase`: `user_data_`, and for each unnamed nonce in
`unnamed_nonces_` the time it was put. -/
structure CheckerState where
  userData : List UInt8 → Option NonceInfo
  unnamedNonces : List UInt8 → Option Nat

/-- The storage of a new checker. -/
def CheckerState.empty : CheckerState := ⟨fun _ => none, fun _ => none⟩

/-- The settings of a checker and what the model leaves open: `GetHA1`, the hash of the
configured algorithm in hex, and the server secret key. -/
structure Checker where
  nonceTtl : Nat
  isSession : Bool
  getHA1 : List UInt8 → Option (List UInt8)
  hash : List UInt8 → List UInt8
  secretKey : List UInt8

/-- `AuthCheckResult::Status`. -/
inductive Status where
  | kTokenNotFound
  | kInternalCheckFailure
  | kInvalidToken
  | kForbidden
  | kOk
  deriving DecidableEq, Repr

/-- What a call leaves in the response: the status of its `AuthCheckResult`, the nonce and the
`stale` flag of a `WWW-Authenticate` challenge, and the `nextnonce` of `Authentication-Info`. -/
structure Response where
  status : Status
  challenge : Option (List UInt8 × Bool) := none
  nextnonce : Option (List UInt8) := none
  deriving DecidableEq, Repr

/-- What a call throws: `ClientError` (400), or the `std::out_of_range` of the parser that no
handler catches. -/
inductive Thrown where
  | clientError
  | outOfRange
  deriving DecidableEq, Repr

/-- A request as the checker reads it: `ToString` of its method, and its `Authorization` and
`ETag` headers. -/
structure Request where
  method : List UInt8
  authorization : List UInt8
  etag : List UInt8

/-- A call of the checker. -/
abbrev CheckM := ExceptT Thrown (StateM CheckerState)

section Run

variable {α β : Type} (st : CheckerState)

/-- A bind runs its first computation, and the rest only when that did not throw. -/
theorem run_bind (x : CheckM α) (f : α → CheckM β) :
    (x >>= f).run.run st =
      match x.run.run st with
      | (.ok a, st') => (f a).run.run st'
      | (.error e, st') => (.error e, st') := by
  simp only [ExceptT.run_bind, StateT.run_bind]
  rcases x.run.run st with ⟨a | e, st'⟩ <;> rfl

@[simp] theorem run_pure (a : α) : ((pure a : CheckM α).run.run st) = (.ok a, st) := rfl

@[simp] theorem run_throw (e : Thrown) : ((throw e : CheckM α).run.run st) = (.error e, st) :=
  rfl

@[simp] theorem run_get : ((get : CheckM CheckerState).run.run st) = (.ok st, st) := rfl

@[simp] theorem run_modify (f : CheckerState → CheckerState) :
    ((modify f : CheckM Unit).run.run st) = (.ok (), f st) := rfl

end Run

/-- `ValidateResult`. -/
inductive ValidateResult where
  | kOk
  | kWrongUserData
  | kDuplicateRequest
  deriving DecidableEq, Repr

/-- `":"`. -/
def colon : List UInt8 := [':'.toUInt8]

/-- `digest_hasher_.GetHash({...})`: the hash of the parts one after another. -/
def Checker.getHash (c : Checker) (data : List (List UInt8)) : List UInt8 :=
  c.hash data.flatten

/-- `Hasher::GenerateNonce(etag)` at time `now`. -/
def Checker.generateNonce (c : Checker) (now : Nat) (etag : List UInt8) : List UInt8 :=
  c.getHash [(toString now).toList.map Char.toUInt8, colon, etag, colon, c.secretKey]

/-- `CalculateDigest`: the request digest of RFC 2617, 3.2.2.1. -/
def Checker.calculateDigest (c : Checker) (ha1 method : List UInt8) (ctx : ContextFromClient) :
    List UInt8 :=
  let ha1 := if c.isSession then ha1 ++ colon ++ ctx.nonce ++ colon ++ ctx.cnonce else ha1
  let ha2 := c.getHash [method, colon, ctx.uri]
  c.getHash [ha1, colon, ctx.nonce, colon, ctx.nc, colon, ctx.cnonce, colon, ctx.qop, colon, ha2]

/-- The value of a hexadecimal digit. -/
def hexDigit? (c : UInt8) : Option Nat :=
  if '0'.toUInt8 ≤ c ∧ c ≤ '9'.toUInt8 then some (c - '0'.toUInt8).toNat
  else if 'a'.toUInt8 ≤ c ∧ c ≤ 'f'.toUInt8 then some ((c - 'a'.toUInt8).toNat + 10)
  else if 'A'.toUInt8 ≤ c ∧ c ≤ 'F'.toUInt8 then some ((c - 'A'.toUInt8).toNat + 10)
  else none

/-- `utils::FromHexString`: `std::from_chars` in base 16 into an `int64_t`, which takes an
optional `-` and at least one digit, and must read the whole string and fit. -/
def fromHexString (str : List UInt8) : Option Int :=
  let (negative, digits) : Bool × List UInt8 :=
    match str with
    | c :: rest => if c = '-'.toUInt8 then (true, rest) else (false, str)
    | [] => (false, [])
  match digits.mapM hexDigit? with
  | none => none
  | some [] => none
  | some (d :: ds) =>
    let magnitude : Int := (d :: ds).foldl (fun acc d => 16 * acc + d) 0
    let value := if negative then -magnitude else magnitude
    if -2 ^ 63 ≤ value ∧ value < 2 ^ 63 then some value else none

/-- `SetUserData`. -/
def setUserData (username nonce : List UInt8) (nonceCount : Int) (nonceCreationTime : Nat) :
    CheckM Unit :=
  modify fun st => { st with
    userData := Function.update st.userData username (some ⟨nonce, nonceCreationTime, nonceCount⟩) }

/-- `FetchUserData`: a registered user without a stored `NonceInfo` gets a default one, with an
empty nonce and the current time, which is stored too. -/
def fetchUserData (c : Checker) (now : Nat) (username : List UInt8) : CheckM (Option UserData) :=
  if username = [] then pure none
  else
    match c.getHA1 username with
    | none => pure none
    | some ha1 => do
      match (← get).userData username with
      | some nonceInfo =>
        pure (some ⟨ha1, nonceInfo.nonce, nonceInfo.expirationTime, nonceInfo.nonceCount⟩)
      | none =>
        let nonceInfoTemp : NonceInfo := ⟨[], now, 0⟩
        setUserData username nonceInfoTemp.nonce nonceInfoTemp.nonceCount
          nonceInfoTemp.expirationTime
        pure (some ⟨ha1, nonceInfoTemp.nonce, nonceInfoTemp.expirationTime,
          nonceInfoTemp.nonceCount⟩)

/-- `PushUnnamedNonce`. -/
def pushUnnamedNonce (now : Nat) (nonce : List UInt8) : CheckM Unit :=
  modify fun st => { st with unnamedNonces := Function.update st.unnamedNonces nonce (some now) }

/-- `ExpirableLruCache::IsExpired`. -/
def isExpired (maxLifetime updateTime now : Nat) : Bool :=
  maxLifetime ≠ 0 && updateTime + maxLifetime < now

/-- `GetUnnamedNonceCreationTime`: `GetOptionalNoUpdate`, then `InvalidateByKey` on a hit. -/
def getUnnamedNonceCreationTime (c : Checker) (now : Nat) (nonce : List UInt8) :
    CheckM (Option Nat) := do
  let unnamedNonce :=
    match (← get).unnamedNonces nonce with
    | some t => if isExpired c.nonceTtl t now then none else some t
    | none => none
  if unnamedNonce.isSome then
    modify fun st => { st with unnamedNonces := Function.update st.unnamedNonces nonce none }
  pure unnamedNonce

/-- `ValidateUserData`: the expiry and the nonce count are checked against `user_data` as it
was fetched, also after an unnamed nonce was moved to the user. -/
def validateUserData (c : Checker) (now : Nat) (clientContext : ContextFromClient)
    (userData : UserData) : CheckM ValidateResult :=
  let checkExpiryAndCount : CheckM ValidateResult :=
    if userData.timestamp + c.nonceTtl < now then pure .kWrongUserData
    else
      match fromHexString clientContext.nc with
      | none => throw .clientError
      | some clientNc =>
        if userData.nonceCount ≥ clientNc then pure .kDuplicateRequest
        else do
          setUserData clientContext.username userData.nonce clientNc userData.timestamp
          pure .kOk
  if userData.nonce = clientContext.nonce then checkExpiryAndCount
  else do
    match ← getUnnamedNonceCreationTime c now clientContext.nonce with
    | none => pure .kWrongUserData
    | some nonceCreationTime =>
      setUserData clientContext.username clientContext.nonce 0 nonceCreationTime
      checkExpiryAndCount

/-- `StartNewAuthSession`. -/
def startNewAuthSession (now : Nat) (username nonce : List UInt8) (stale : Bool) :
    CheckM Response := do
  setUserData username nonce 0 now
  pure { status := .kInvalidToken, challenge := some (nonce, stale) }

/-- `ConstructAuthInfoHeader`: the `nextnonce`, stored for the user. -/
def constructAuthInfoHeader (c : Checker) (now : Nat) (clientContext : ContextFromClient)
    (etag : List UInt8) : CheckM (List UInt8) := do
  let nextNonce := c.generateNonce now etag
  setUserData clientContext.username nextNonce 0 now
  pure nextNonce

/-- `CheckAuth`. -/
def checkAuth (c : Checker) (now : Nat) (request : Request) : CheckM Response :=
  if request.authorization = [] then do
    let nonce := c.generateNonce now request.etag
    pushUnnamedNonce now nonce
    pure { status := .kInvalidToken, challenge := some (nonce, false) }
  else
    match parseAuthInfo request.authorization with
    | .error .outOfRange => throw .outOfRange
    | .error _ => throw .clientError
    | .ok clientContext => do
      match ← fetchUserData c now clientContext.username with
      | none => pure { status := .kForbidden }
      | some userData =>
        match ← validateUserData c now clientContext userData with
        | .kWrongUserData =>
          startNewAuthSession now clientContext.username (c.generateNonce now request.etag) true
        | .kDuplicateRequest => pure { status := .kTokenNotFound }
        | .kOk =>
          if c.calculateDigest userData.ha1 request.method clientContext ≠ clientContext.response
          then pure { status := .kInvalidToken, challenge := some (clientContext.nonce, false) }
          else do
            let nextNonce ← constructAuthInfoHeader c now clientContext request.etag
            pure { status := .kOk, nextnonce := some nextNonce }

/-- A call of `CheckAuth` from a storage: what it returns or throws, and the storage after it. -/
def runCheckAuth (c : Checker) (now : Nat) (request : Request) (st : CheckerState) :
    Except Thrown Response × CheckerState :=
  (checkAuth c now request).run.run st

/-! ## The steps of a successful call -/

section Specs

variable {c : Checker} {now : Nat} {st : CheckerState}

/-- A registered user without stored state gets the default `NonceInfo`, stored as well. -/
theorem fetchUserData_run_of_none {username ha1 : List UInt8} (hu : username ≠ [])
    (hha1 : c.getHA1 username = some ha1) (hst : st.userData username = none) :
    (fetchUserData c now username).run.run st =
      (.ok (some ⟨ha1, [], now, 0⟩),
        { st with userData := Function.update st.userData username (some ⟨[], now, 0⟩) }) := by
  simp only [fetchUserData, hu, hha1, if_false, run_bind, run_get, hst, setUserData, run_modify,
    run_pure]

/-- The user's own nonce, not expired, with a nonce count above the stored one, is accepted, and
the count is stored. -/
theorem validateUserData_run_of_nonce_eq {clientContext : ContextFromClient} {userData : UserData}
    {clientNc : Int} (hnonce : userData.nonce = clientContext.nonce)
    (hfresh : ¬userData.timestamp + c.nonceTtl < now)
    (hnc : fromHexString clientContext.nc = some clientNc) (hcount : userData.nonceCount < clientNc) :
    (validateUserData c now clientContext userData).run.run st =
      (.ok .kOk, { st with
        userData := Function.update st.userData clientContext.username
          (some ⟨userData.nonce, userData.timestamp, clientNc⟩) }) := by
  have hge : ¬userData.nonceCount ≥ clientNc := by omega
  simp only [validateUserData, hnonce, if_true, hfresh, if_false, hnc, hge, run_bind,
    setUserData, run_modify, run_pure]

/-- A call whose header parses, whose user is fetched and validated, and whose response is the
expected digest succeeds, with a new `nextnonce` stored for the user. -/
theorem runCheckAuth_of_ok {request : Request} {clientContext : ContextFromClient}
    {userData : UserData} {st₁ st₂ : CheckerState} (hauth : request.authorization ≠ [])
    (hparse : parseAuthInfo request.authorization = .ok clientContext)
    (hfetch : (fetchUserData c now clientContext.username).run.run st = (.ok (some userData), st₁))
    (hvalid : (validateUserData c now clientContext userData).run.run st₁ = (.ok .kOk, st₂))
    (hdigest : c.calculateDigest userData.ha1 request.method clientContext = clientContext.response) :
    runCheckAuth c now request st =
      (.ok { status := .kOk, nextnonce := some (c.generateNonce now request.etag) },
        { st₂ with
          userData := Function.update st₂.userData clientContext.username
            (some ⟨c.generateNonce now request.etag, now, 0⟩) }) := by
  simp only [runCheckAuth, checkAuth, hauth, if_false, hparse, run_bind, hfetch, hvalid, hdigest,
    ne_eq, not_true_eq_false, constructAuthInfoHeader, setUserData, run_modify, run_pure]

end Specs

/-- A registered user's first request succeeds before any nonce was issued: it carries the nonce
`""`, which `FetchUserData` gives the user by default, the nonce count 1, and the digest of the
user's HA1; nothing was stored before, neither for the user nor as an unnamed nonce. -/
theorem checkAuth_first_request_empty_nonce (c : Checker) (now : Nat)
    (username realm uri method etag ha1 : List UInt8) (hu : username ≠ [])
    (hha1 : c.getHA1 username = some ha1) :
    let directives := [(kUsername, username), (kRealm, realm), (kNonce, []), (kUri, uri),
      (kNonceCount, "00000001".toList.map Char.toUInt8)]
    let response := c.calculateDigest ha1 method (contextOf directives {})
    (runCheckAuth c now ⟨method, renderAuthorization (directives ++ [(kResponse, response)]), etag⟩
        CheckerState.empty).1 =
      .ok { status := .kOk, nextnonce := some (c.generateNonce now etag) } := by
  intro directives response
  have hparse := parseAuthInfo_renderAuthorization (directives ++ [(kResponse, response)])
    (by simp [directives]) (by simp [directives]) (by simp [directives, kMandatoryDirectives])
  have hnc : fromHexString ("00000001".toList.map Char.toUInt8) = some 1 := by decide
  have hfetch : (fetchUserData c now username).run.run CheckerState.empty =
      (.ok (some ⟨ha1, [], now, 0⟩), { CheckerState.empty with
        userData := Function.update CheckerState.empty.userData username (some ⟨[], now, 0⟩) }) :=
    fetchUserData_run_of_none hu hha1 rfl
  have hfresh : ¬now + c.nonceTtl < now := by omega
  rw [runCheckAuth_of_ok (by simp [directives, renderAuthorization, kDigestWord]) hparse hfetch
    (validateUserData_run_of_nonce_eq rfl hfresh hnc Int.zero_lt_one)]
  -- the digest does not read the response directive
  rfl

/-- The user `u` of a checker that registers everyone with an empty HA1, at time 0. -/
theorem checkAuth_first_request_empty_nonce_user_u :
    let c : Checker := ⟨1000, false, fun _ => some [], id, []⟩
    let directives := [(kUsername, ['u'.toUInt8]), (kRealm, []), (kNonce, []), (kUri, []),
      (kNonceCount, "00000001".toList.map Char.toUInt8)]
    let response := c.calculateDigest [] [] (contextOf directives {})
    (runCheckAuth c 0 ⟨[], renderAuthorization (directives ++ [(kResponse, response)]), []⟩
        CheckerState.empty).1 =
      .ok { status := .kOk, nextnonce := some (c.generateNonce 0 []) } :=
  checkAuth_first_request_empty_nonce ⟨1000, false, fun _ => some [], id, []⟩ 0 ['u'.toUInt8] [] []
    [] [] [] (by decide) rfl

end Digest

end Userver
