import Userver.Http.PathIndex
import Userver.Digest.Checker

/-!
# The API key checker

`AuthCheckerApiKey` (`auth_checker_apikey.cpp`) keeps, for each method, the set of API keys a
request of that method must present.  Its constructor fills the table from the handler's auth
config: `apikey_type` gives one key set to every handler method, then `apikey_type_by_method`
overrides the set method by method; a key type missing from secdist throws.  `CheckAuth` looks up
the set of the request's own method: no set lets the request through, and otherwise the
`X-YaTaxi-API-Key` header must hold one of the keys.

`checkAuth_status_eq_kOk_iff` and `create_keysByMethod` say what the checker accepts.  The table
is indexed by the request's method while routing serves a HEAD request by the handler of GET
(`HandlerMethodIndex.headFallback`): `checkAuth_head_bypasses_get_keys` is a handler of GET whose
keys are configured for GET only, and a HEAD request without a key that reaches it.
-/

namespace Userver

namespace Http

open HttpMethod

/-- `ApiKeysSet`. -/
abbrev ApiKeysSet := List String

/-- `AuthCheckerSettings`: the key sets by key type, when secdist has them. -/
structure AuthCheckerSettings where
  apikeysMap : Option (List (String × ApiKeysSet))

/-- The auth config of a handler: `apikey_type`, and the `apikey_type_by_method` section as
written, a key type for some method names. -/
structure HandlerAuthConfig where
  apikeyType : Option String := none
  apikeyTypeByMethod : Option (List (String × String)) := none

/-- `Parse` of `ApiKeyTypeByMethodSettings`: the key type under the name of each handler method. -/
def parseApiKeyTypeByMethod (value : List (String × String)) (method : HttpMethod) :
    Option String :=
  if method ∈ kHandlerMethods then KeyMap.find? method.toString value else none

/-- `GetApiKeysByType`. -/
def getApiKeysByType (settings : AuthCheckerSettings) (apikeyType : String) :
    Except String ApiKeysSet :=
  match settings.apikeysMap with
  | none =>
    .error "apikeys map not found in auth checker settings (possible missing value in secdist)"
  | some apikeysMap =>
    match KeyMap.find? apikeyType apikeysMap with
    | none => .error ("apikey_type '" ++ apikeyType ++
        "' not found in apikeys settings (possible missing value in secdist)")
    | some keysSet => .ok keysSet

/-- `IsApiKeyAllowed`: `AreStringsEqualConstTime` is equality. -/
def isApiKeyAllowed (apiKey : String) (allowedKeys : ApiKeysSet) : Bool :=
  allowedKeys.any (· == apiKey)

/-- `http::headers::kApiKey`. -/
def kApiKey : String := "X-YaTaxi-API-Key"

/-- What `CheckAuth` reads of an `HttpRequest`: its method, its path, and its `kApiKey` header,
"" when the request has none (as `GetHeader` returns). -/
structure HttpRequest where
  method : HttpMethod
  requestPath : String
  apiKey : String

/-- `AuthCheckResult`: its status and reason. -/
structure AuthCheckResult where
  status : Digest.Status
  reason : String
  deriving DecidableEq

/-- `AuthCheckerApiKey`: the key set of each method (`keys_by_method_`). -/
structure AuthCheckerApiKey where
  keysByMethod : HttpMethod → Option ApiKeysSet

namespace AuthCheckerApiKey

/-- The `apikey_type_by_method` loop of the constructor, at one handler method. -/
def setKeysOfMethod (settings : AuthCheckerSettings) (apikeyTypeByMethod : List (String × String))
    (keysByMethod : HttpMethod → Option ApiKeysSet) (method : HttpMethod) :
    Except String (HttpMethod → Option ApiKeysSet) :=
  match parseApiKeyTypeByMethod apikeyTypeByMethod method with
  | some apikeyType => do
    let keysSet ← getApiKeysByType settings apikeyType
    pure (Function.update keysByMethod method (some keysSet))
  | none => pure keysByMethod

/-- The constructor `AuthCheckerApiKey(auth_config, settings)`. -/
def create (authConfig : HandlerAuthConfig) (settings : AuthCheckerSettings) :
    Except String AuthCheckerApiKey := do
  let keysByMethod ← (match authConfig.apikeyType with
    | some apikeyType => do
      let keysSet ← getApiKeysByType settings apikeyType
      pure fun method => if method ∈ kHandlerMethods then some keysSet else none
    | none => pure fun _ => none : Except String (HttpMethod → Option ApiKeysSet))
  let keysByMethod ← (match authConfig.apikeyTypeByMethod with
    | some apikeyTypeByMethod =>
      kHandlerMethods.foldlM (setKeysOfMethod settings apikeyTypeByMethod) keysByMethod
    | none => pure keysByMethod : Except String (HttpMethod → Option ApiKeysSet))
  pure ⟨keysByMethod⟩

/-- `GetApiKeysForRequest`: every method's index is below the size of the table. -/
def getApiKeysForRequest (checker : AuthCheckerApiKey) (request : HttpRequest) :
    Option ApiKeysSet :=
  checker.keysByMethod request.method

/-- `CheckAuth`. -/
def checkAuth (checker : AuthCheckerApiKey) (request : HttpRequest) : AuthCheckResult :=
  match checker.getApiKeysForRequest request with
  | none => ⟨.kOk, "apikey_type is not set for '" ++ request.method.toString ++ "' '" ++
      request.requestPath ++ "' requests"⟩
  | some allowedKeys =>
    if request.apiKey = "" then ⟨.kTokenNotFound, "missing or empty " ++ kApiKey ++ " header"⟩
    else if isApiKeyAllowed request.apiKey allowedKeys then ⟨.kOk, "IsApiKeyAllowed: OK"⟩
    else ⟨.kForbidden, "no valid apikey found in " ++ kApiKey ++ " header"⟩

/-- A request passes exactly when its own method has no key set, or it presents a key of that
set. -/
theorem checkAuth_status_eq_kOk_iff (checker : AuthCheckerApiKey) (request : HttpRequest) :
    (checker.checkAuth request).status = .kOk ↔
      checker.keysByMethod request.method = none ∨
        ∃ keys, checker.keysByMethod request.method = some keys ∧ request.apiKey ≠ "" ∧
          request.apiKey ∈ keys := by
  unfold checkAuth getApiKeysForRequest
  cases hkeys : checker.keysByMethod request.method with
  | none => simp
  | some keys =>
    by_cases hempty : request.apiKey = ""
    · simp [hempty]
    · by_cases hallowed : isApiKeyAllowed request.apiKey keys = true
      · have hmem : request.apiKey ∈ keys := by simpa [isApiKeyAllowed] using hallowed
        simp [hempty, hallowed, hmem]
      · have hmem : request.apiKey ∉ keys := by simpa [isApiKeyAllowed] using hallowed
        simp [hempty, hallowed, hmem]

/-- The key set `create` gives a method: the set of its type in `apikey_type_by_method`, or, when
it has none there, the value before the loop. -/
def keysOfMethod (settings : AuthCheckerSettings) (apikeyTypeByMethod : List (String × String))
    (keysByMethod : HttpMethod → Option ApiKeysSet) (method : HttpMethod) : Option ApiKeysSet :=
  (parseApiKeyTypeByMethod apikeyTypeByMethod method).elim (keysByMethod method)
    fun apikeyType => (getApiKeysByType settings apikeyType).toOption

theorem setKeysOfMethod_eq_ok {settings : AuthCheckerSettings}
    {apikeyTypeByMethod : List (String × String)} {keysByMethod keysByMethod' :
      HttpMethod → Option ApiKeysSet} {method : HttpMethod}
    (h : setKeysOfMethod settings apikeyTypeByMethod keysByMethod method = .ok keysByMethod') :
    keysByMethod' = Function.update keysByMethod method
      (keysOfMethod settings apikeyTypeByMethod keysByMethod method) := by
  unfold setKeysOfMethod at h
  unfold keysOfMethod
  cases hparse : parseApiKeyTypeByMethod apikeyTypeByMethod method with
  | none =>
    rw [hparse] at h
    cases h
    simp
  | some apikeyType =>
    rw [hparse] at h
    obtain ⟨keysSet, hkeys, hset⟩ := Codec.bind_eq_ok.1 h
    cases hset
    simp [hkeys, Except.toOption]

/-- The loop of the constructor over a list of methods sets each of them to `keysOfMethod`. -/
theorem foldlM_setKeysOfMethod {settings : AuthCheckerSettings}
    {apikeyTypeByMethod : List (String × String)} :
    ∀ (methods : List HttpMethod) (keysByMethod keysByMethod' : HttpMethod → Option ApiKeysSet),
      methods.foldlM (setKeysOfMethod settings apikeyTypeByMethod) keysByMethod =
          .ok keysByMethod' →
        ∀ method, keysByMethod' method = if method ∈ methods then
          keysOfMethod settings apikeyTypeByMethod keysByMethod method else keysByMethod method
  | [], keysByMethod, keysByMethod', h, method => by
    cases h
    simp
  | method₀ :: methods, keysByMethod, keysByMethod', h, method => by
    rw [List.foldlM_cons] at h
    obtain ⟨mid, hmid, hrest⟩ := Codec.bind_eq_ok.1 h
    have hmid := setKeysOfMethod_eq_ok hmid
    rw [foldlM_setKeysOfMethod methods mid keysByMethod' hrest method, hmid]
    by_cases hm : method = method₀
    · -- the method set by the first turn keeps the value a later turn would give it
      subst hm
      cases hparse : parseApiKeyTypeByMethod apikeyTypeByMethod method <;>
        simp [keysOfMethod, hparse]
    · have hsame : keysOfMethod settings apikeyTypeByMethod
          (Function.update keysByMethod method₀
            (keysOfMethod settings apikeyTypeByMethod keysByMethod method₀)) method =
          keysOfMethod settings apikeyTypeByMethod keysByMethod method := by
        simp [keysOfMethod, hm]
      simp [hm, hsame]

/-- The table the constructor builds: a method's key set comes from `apikey_type_by_method` when
that names a type for it, and from `apikey_type` for the other handler methods. -/
theorem create_keysByMethod {authConfig : HandlerAuthConfig} {settings : AuthCheckerSettings}
    {checker : AuthCheckerApiKey} (h : create authConfig settings = .ok checker)
    (method : HttpMethod) :
    checker.keysByMethod method =
      match authConfig.apikeyTypeByMethod.bind (parseApiKeyTypeByMethod · method) with
      | some apikeyType => (getApiKeysByType settings apikeyType).toOption
      | none =>
        if method ∈ kHandlerMethods then
          authConfig.apikeyType.bind fun apikeyType =>
            (getApiKeysByType settings apikeyType).toOption
        else none := by
  unfold create at h
  obtain ⟨keysByMethod₀, h₀, h⟩ := Codec.bind_eq_ok.1 h
  obtain ⟨keysByMethod, h₁, h⟩ := Codec.bind_eq_ok.1 h
  cases h
  -- the table before the `apikey_type_by_method` loop
  have hbase : keysByMethod₀ method = if method ∈ kHandlerMethods then
      authConfig.apikeyType.bind fun apikeyType =>
        (getApiKeysByType settings apikeyType).toOption
      else none := by
    cases htype : authConfig.apikeyType with
    | none =>
      rw [htype] at h₀
      cases h₀
      simp
    | some apikeyType =>
      rw [htype] at h₀
      obtain ⟨keysSet, hkeys, hset⟩ := Codec.bind_eq_ok.1 h₀
      cases hset
      simp [hkeys, Except.toOption]
  cases hby : authConfig.apikeyTypeByMethod with
  | none =>
    rw [hby] at h₁
    cases h₁
    simpa using hbase
  | some apikeyTypeByMethod =>
    rw [hby] at h₁
    show keysByMethod method = _
    rw [foldlM_setKeysOfMethod _ _ _ h₁ method]
    by_cases hm : method ∈ kHandlerMethods
    · cases hparse : parseApiKeyTypeByMethod apikeyTypeByMethod method <;>
        simp [keysOfMethod, hparse, hm, hbase]
    · have hparse : parseApiKeyTypeByMethod apikeyTypeByMethod method = none := by
        simp [parseApiKeyTypeByMethod, hm]
      simp [hm, hparse, hbase]

end AuthCheckerApiKey

/-- A handler serving GET only, on "/data". -/
def getData : HttpHandler := ⟨{ path := "/data", method := "GET" }, [.kGet], rfl⟩

/-- Keys configured for GET only. -/
def getOnlyAuthConfig : HandlerAuthConfig := { apikeyTypeByMethod := some [("GET", "k")] }

/-- The key set of type "k" in secdist. -/
def secdistKeys : AuthCheckerSettings := ⟨some [("k", ["secret"])]⟩

/-- A HEAD request without a key is routed to the handler of GET, whose keys are configured for
GET, and passes its checker. -/
theorem checkAuth_head_bypasses_get_keys :
    ∃ index checker, HandlerInfoIndex.empty.addHandler getData = .ok index ∧
      AuthCheckerApiKey.create getOnlyAuthConfig secdistKeys = .ok checker ∧
      index.matchRequest .kHead "/data" =
        .ok { handlerInfo := some getData, matchedPathLength := 5, status := .kOk } ∧
      checker.keysByMethod .kGet = some ["secret"] ∧
      checker.checkAuth ⟨.kHead, "/data", ""⟩ =
        ⟨.kOk, "apikey_type is not set for 'HEAD' '/data' requests"⟩ :=
  ⟨_, _, rfl, rfl, rfl, rfl, rfl⟩

end Http

end Userver
