import Userver.Lib.Codec

/-!
# The digest `Authorization` directive parser

`digest::Parser::ParseAuthInfo` (`directives_parser.cpp`) reads the directives of a digest
`Authorization` header with a seven-state automaton over its bytes, one `switch` case per state,
then checks the per-directive counters: each mandatory directive must occur, and none twice.
Bytes are `UInt8`; `std::isalnum` and `std::isspace` are those of the C locale.

The header is cut with `substr(kDigestWord.size() + 1)` after an `UASSERT_MSG` on its first six
bytes.  The assertion is compiled out of release builds, which this model follows, and `substr`
throws `std::out_of_range` when the header is shorter than its argument: that exception is not an
`auth::Exception`, so `CheckAuth`, which catches those only, lets it through.

* `parseAuthInfo_eq_outOfRange_iff`: `std::out_of_range` is thrown exactly for headers shorter
  than seven bytes; every other failure is one of the parser's own exceptions.
-/

namespace Userver

namespace Digest

/-- `std::isalnum` in the C locale. -/
def isAlnum (c : UInt8) : Bool :=
  ('0'.toUInt8 ≤ c && c ≤ '9'.toUInt8) || ('A'.toUInt8 ≤ c && c ≤ 'Z'.toUInt8) ||
    ('a'.toUInt8 ≤ c && c ≤ 'z'.toUInt8)

/-- `std::isspace` in the C locale: the blank and `\t`, `\n`, `\v`, `\f`, `\r`. -/
def isSpace (c : UInt8) : Bool :=
  c = ' '.toUInt8 || (9 ≤ c && c ≤ 13)

/-- `kDigestWord`. -/
def kDigestWord : List UInt8 := "Digest".toList.map Char.toUInt8

/-- `ClientDirectiveTypes`, in the order of the counter array. -/
inductive ClientDirectiveTypes where
  | kUsername
  | kRealm
  | kNonce
  | kUri
  | kResponse
  | kAlgorithm
  | kCnonce
  | kOpaque
  | kQop
  | kNonceCount
  | kAuthParam
  | kUnknown
  deriving DecidableEq, Repr

namespace ClientDirectiveTypes

/-- The directive types the counter array has a slot for, in its order. -/
def counted : List ClientDirectiveTypes :=
  [kUsername, kRealm, kNonce, kUri, kResponse, kAlgorithm, kCnonce, kOpaque, kQop, kNonceCount,
    kAuthParam]

/-- `kClientDirectivesMap.TryFind(directive_type)`: the name of a directive. -/
def name? : ClientDirectiveTypes → Option String
  | kUsername => some "username"
  | kRealm => some "realm"
  | kNonce => some "nonce"
  | kUri => some "uri"
  | kResponse => some "response"
  | kAlgorithm => some "algorithm"
  | kCnonce => some "cnonce"
  | kOpaque => some "opaque"
  | kQop => some "qop"
  | kNonceCount => some "nc"
  | kAuthParam => some "auth-param"
  | kUnknown => none

/-- The name of a directive, or `"unknown_directive"` as the checks write it. -/
def nameOrUnknown (t : ClientDirectiveTypes) : String := t.name?.getD "unknown_directive"

/-- `kClientDirectivesMap.TryFind(directive).value_or(ClientDirectiveTypes::kUnknown)`. -/
def ofToken (directive : List UInt8) : ClientDirectiveTypes :=
  (counted.find? fun t => t.name?.map (fun s => s.toList.map Char.toUInt8) = some directive).getD
    kUnknown

end ClientDirectiveTypes

open ClientDirectiveTypes

/-- `kMandatoryDirectives`. -/
def kMandatoryDirectives : List ClientDirectiveTypes := [kRealm, kNonce, kResponse, kUri, kUsername]

/-- `ContextFromClient`: the value of each directive, empty where it was not given. -/
structure ContextFromClient where
  username : List UInt8 := []
  realm : List UInt8 := []
  nonce : List UInt8 := []
  uri : List UInt8 := []
  response : List UInt8 := []
  algorithm : List UInt8 := []
  cnonce : List UInt8 := []
  opaque_ : List UInt8 := []
  qop : List UInt8 := []
  nc : List UInt8 := []
  authparam : List UInt8 := []
  deriving DecidableEq, Repr

/-- What `ParseAuthInfo` throws: `std::out_of_range` from `substr`, or one of the subclasses of
`auth::Exception` with its message. -/
inductive ParseError where
  | outOfRange
  | parseException (what : String)
  | missingDirectivesException (missingDirectives : List String)
  | duplicateDirectiveException (what : String)
  deriving DecidableEq, Repr

/-- `State`. -/
inductive State where
  | kStateSpace
  | kStateToken
  | kStateEquals
  | kStateValue
  | kStateValueQuoted
  | kStateValueEscape
  | kStateComma
  deriving DecidableEq, Repr

/-- The locals of `ParseAuthInfo` and the parser's `directives_counter_`. -/
structure ParseState where
  state : State
  token : List UInt8
  value : List UInt8
  clientContext : ContextFromClient
  directivesCounter : ClientDirectiveTypes → Nat

/-- The state before the first byte, with the counters of a new `Parser`. -/
def ParseState.initial : ParseState :=
  ⟨.kStateSpace, [], [], {}, fun _ => 0⟩

/-- `auth_header_value.substr(pos)`. -/
def substr (s : List UInt8) (pos : Nat) : Except ParseError (List UInt8) :=
  if pos > s.length then throw .outOfRange else pure (s.drop pos)

/-- The assignment of the `switch` of `PushToClientContext`; its `kUnknown` case throws, which
`pushToClientContext` does before. -/
def ContextFromClient.set (ctx : ContextFromClient) (value : List UInt8) :
    ClientDirectiveTypes → ContextFromClient
  | kUsername => { ctx with username := value }
  | kRealm => { ctx with realm := value }
  | kNonce => { ctx with nonce := value }
  | kUri => { ctx with uri := value }
  | kResponse => { ctx with response := value }
  | kAlgorithm => { ctx with algorithm := value }
  | kCnonce => { ctx with cnonce := value }
  | kOpaque => { ctx with opaque_ := value }
  | kQop => { ctx with qop := value }
  | kNonceCount => { ctx with nc := value }
  | kAuthParam => { ctx with authparam := value }
  | kUnknown => ctx

/-- `PushToClientContext(token, value, client_context)`, followed by the caller's
`token.clear(); value.clear()`. -/
def pushToClientContext (s : ParseState) : Except ParseError ParseState :=
  let directiveType := ofToken s.token
  if directiveType = kUnknown then throw (.parseException "Unknown directive found")
  else
    pure { s with
      token := []
      value := []
      clientContext := s.clientContext.set s.value directiveType
      directivesCounter := Function.update s.directivesCounter directiveType
        (s.directivesCounter directiveType + 1) }

/-- One iteration of the loop over `directives_str`: the `switch (state)`. -/
def step (s : ParseState) (delimiter : UInt8) : Except ParseError ParseState :=
  let invalid : Except ParseError ParseState := throw (.parseException "Invalid header format")
  match s.state with
  | .kStateSpace =>
    if isAlnum delimiter || delimiter = '_'.toUInt8 || delimiter = '-'.toUInt8 then
      pure { s with token := s.token ++ [delimiter], state := .kStateToken }
    else if isSpace delimiter then pure s
    else invalid
  | .kStateToken =>
    if delimiter = '='.toUInt8 then pure { s with state := .kStateEquals }
    else if isAlnum delimiter || delimiter = '_'.toUInt8 || delimiter = '-'.toUInt8 then
      pure { s with token := s.token ++ [delimiter] }
    else invalid
  | .kStateEquals =>
    if isAlnum delimiter || delimiter = '_'.toUInt8 then
      pure { s with value := s.value ++ [delimiter], state := .kStateValue }
    else if delimiter = '"'.toUInt8 then pure { s with state := .kStateValueQuoted }
    else invalid
  | .kStateValueQuoted =>
    if delimiter = '\\'.toUInt8 then pure { s with state := .kStateValueEscape }
    else if delimiter = '"'.toUInt8 then do
      let s ← pushToClientContext s
      pure { s with state := .kStateComma }
    else pure { s with value := s.value ++ [delimiter] }
  | .kStateValueEscape => pure { s with value := s.value ++ [delimiter], state := .kStateValueQuoted }
  | .kStateValue =>
    if isSpace delimiter then do
      let s ← pushToClientContext s
      pure { s with state := .kStateComma }
    else if delimiter = ','.toUInt8 then do
      let s ← pushToClientContext s
      pure { s with state := .kStateSpace }
    else pure { s with value := s.value ++ [delimiter] }
  | .kStateComma =>
    if delimiter = ','.toUInt8 then pure { s with state := .kStateSpace }
    else if isSpace delimiter then pure s
    else invalid

/-- `CheckMandatoryDirectivesPresent`. -/
def checkMandatoryDirectivesPresent (directivesCounter : ClientDirectiveTypes → Nat) :
    Except ParseError Unit :=
  let missingDirectives :=
    (kMandatoryDirectives.filter fun t => directivesCounter t = 0).map nameOrUnknown
  if missingDirectives ≠ [] then throw (.missingDirectivesException missingDirectives)
  else pure ()

/-- `CheckDuplicateDirectivesExist`: the first counter above one, in the array's order. -/
def checkDuplicateDirectivesExist (directivesCounter : ClientDirectiveTypes → Nat) :
    Except ParseError Unit :=
  match counted.find? fun t => directivesCounter t > 1 with
  | some t => throw (.duplicateDirectiveException ("Duplicate '" ++ nameOrUnknown t ++
      "' directive found"))
  | none => pure ()

/-- `Parser{}.ParseAuthInfo(auth_header_value)`, as built for release. -/
def parseAuthInfo (authHeaderValue : List UInt8) : Except ParseError ContextFromClient := do
  -- the UASSERT_MSG on the first six bytes is not compiled in
  let directivesStr ← substr authHeaderValue (kDigestWord.length + 1)
  let s ← directivesStr.foldlM step ParseState.initial
  let s ← (if s.state = .kStateValue then pushToClientContext s else pure s :
    Except ParseError ParseState)
  (if s.state ≠ .kStateValue ∧ s.state ≠ .kStateComma then
    throw (.parseException "Invalid header format") else pure () : Except ParseError Unit)
  checkMandatoryDirectivesPresent s.directivesCounter
  checkDuplicateDirectivesExist s.directivesCounter
  pure s.clientContext

/-! ## Which exceptions escape -/

/-- The error is one of the `auth::Exception` subclasses, which `CheckAuth` answers with 400. -/
def ParseError.isException : ParseError → Bool
  | .outOfRange => false
  | _ => true

open Codec

theorem pushToClientContext_error {s : ParseState} {e : ParseError}
    (h : pushToClientContext s = .error e) : e.isException := by
  simp only [pushToClientContext] at h
  split at h <;> cases h
  rfl

theorem step_error {s : ParseState} {c : UInt8} {e : ParseError} (h : step s c = .error e) :
    e.isException := by
  unfold step at h
  -- the two ways a byte fails: an invalid byte for the state, or an unknown directive pushed
  split at h <;> (repeat' split at h) <;>
    first
    | (simp only [bind_eq_error] at h
       rcases h with h | ⟨_, _, h⟩
       · exact pushToClientContext_error h
       · cases h)
    | (cases h; rfl)
    | cases h

theorem foldlM_step_error {e : ParseError} :
    ∀ (l : List UInt8) (s : ParseState), l.foldlM step s = .error e → e.isException
  | [], _, h => by cases h
  | c :: l, s, h => by
    rw [List.foldlM_cons, bind_eq_error] at h
    rcases h with h | ⟨s', _, h⟩
    · exact step_error h
    · exact foldlM_step_error l s' h

/-- Past `substr`, every failure of `ParseAuthInfo` is an `auth::Exception`. -/
theorem parseAuthInfo_error_of_le_length {h : List UInt8} {e : ParseError}
    (hlen : kDigestWord.length + 1 ≤ h.length) (he : parseAuthInfo h = .error e) :
    e.isException := by
  have hsub : substr h (kDigestWord.length + 1) = .ok (h.drop (kDigestWord.length + 1)) := by
    simp [substr, Nat.not_lt.mpr hlen, pure, Except.pure]
  simp only [parseAuthInfo, hsub, bind_eq_error] at he
  rcases he with he | ⟨_, _, he⟩
  · cases he
  rcases he with he | ⟨s, _, he⟩
  · exact foldlM_step_error _ _ he
  rcases he with he | ⟨s', _, he⟩
  · split at he
    · exact pushToClientContext_error he
    · cases he
  -- the final state check and the two counter checks throw their own exceptions only
  rcases he with he | ⟨_, _, he⟩
  · split at he <;> cases he
    rfl
  rcases he with he | ⟨_, _, he⟩
  · simp only [checkMandatoryDirectivesPresent] at he
    split at he <;> cases he
    rfl
  rcases he with he | ⟨_, _, he⟩
  · unfold checkDuplicateDirectivesExist at he
    split at he <;> cases he
    rfl
  · cases he

/-- `std::out_of_range` escapes `ParseAuthInfo` exactly for headers shorter than
`kDigestWord.size() + 1` bytes. -/
theorem parseAuthInfo_eq_outOfRange_iff (h : List UInt8) :
    parseAuthInfo h = .error .outOfRange ↔ h.length < kDigestWord.length + 1 := by
  constructor
  · intro he
    by_contra hlen
    exact absurd (parseAuthInfo_error_of_le_length (Nat.le_of_not_lt hlen) he) (by decide)
  · intro hlen
    simp [parseAuthInfo, substr, hlen, throw, throwThe, MonadExceptOf.throw, bind, Except.bind]

/-- The header `Digest` throws `std::out_of_range` past `CheckAuth`'s handler; and a header that
does not start with `Digest` is parsed from its eighth byte on. -/
theorem parseAuthInfo_digest_outOfRange :
    parseAuthInfo kDigestWord = .error .outOfRange ∧
      parseAuthInfo ("Basic! username=u, realm=r, nonce=n, uri=x, response=y".toList.map
        Char.toUInt8) =
        .ok { username := ['u'.toUInt8], realm := ['r'.toUInt8], nonce := ['n'.toUInt8],
              uri := ['x'.toUInt8], response := ['y'.toUInt8] } := by
  constructor <;> decide

end Digest

end Userver
