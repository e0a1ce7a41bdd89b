import Userver.Http.HeaderMap
import Userver.Lib.Codec

/-!
# The headers and the cookies of a request

Over HTTP/1.1 `llhttp` hands a header to `HttpRequestConstructor` in fragments: the name in one or
more `on_header_field` callbacks, then the value in one or more `on_header_value` callbacks.  The
constructor (`http_request_constructor.cpp`) appends the fragments to `header_field_` and
`header_value_` and adds the header to the request when the next name begins, which a flag pair
detects; `on_headers_complete` appends an empty name, which adds the last header.  Over HTTP/2
`Http2Session::OnHeader` hands each field whole, as one name and one value, and the end of the
stream appends the empty name.  `HttpRequestBuilder::AddHeader` puts each header in the request's
`HeaderMap` with `InsertOrAppend`, and `Build` runs `ParseCookies` (`http_request_builder.cpp`), a
scan of the `Cookie` header with a key pointer, a key end and a flag.

A size over a limit throws and the request is answered with an error, whatever follows, so the
model stops at the first error.

* `http1Headers_flatMap_events`, `http2Headers_eq_http1Headers`: within the size limits, the
  headers of a request are its fields put in the map by `InsertOrAppend` in the order they came,
  whatever the fragments over HTTP/1.1; over HTTP/2 the fields other than `:method` and `:path`.
* `parseCookies_eq_rfcCookies`: the pointer scan of `ParseCookies` is the RFC 6265 reading of a
  cookie-string (pairs at `';'`, the name at the first `'='`, stripped, the value unquoted).
* `headers_and_cookies_of_fields`: so `GetHeader(name)` joins the values of every header named
  `name` with `','`, and the cookies are read from the `Cookie` values joined with `','`: a
  second `Cookie` header continues the value of the last cookie of the first, as
  `http_request_cookie_test.cpp` expects of twelve `Cookie` lines (`cookies_of_http2_crumbs`).
-/

namespace Userver

namespace Http

/-- The size limits of `HttpRequestConfig` that headers count against. -/
structure RequestConfig where
  maxRequestSize : Nat := 1024 * 1024
  maxHeadersSize : Nat := 65536
  deriving DecidableEq, Repr

/-- The statuses a header sets when a size is over its limit. -/
inductive HeaderError where
  | kHeadersTooLarge
  | kRequestTooLarge
  deriving DecidableEq, Repr

/-- The header part of an `HttpRequestConstructor`: the name and the value being assembled, the
two flags, the sizes counted so far, and the headers of the request being built. -/
structure HeaderAssembly where
  headerField : String := ""
  headerValue : String := ""
  headerFieldFlag : Bool := false
  headerValueFlag : Bool := false
  headersSize : Nat := 0
  requestSize : Nat := 0
  headers : HeaderMap := .empty
  deriving DecidableEq, Repr

namespace HeaderAssembly

variable (config : RequestConfig)

/-- `AccountHeadersSize` then `AccountRequestSize`, for a fragment of `size` bytes. -/
def account (s : HeaderAssembly) (size : Nat) : Except HeaderError HeaderAssembly := do
  let s := { s with headersSize := s.headersSize + size }
  if s.headersSize > config.maxHeadersSize then throw .kHeadersTooLarge
  let s := { s with requestSize := s.requestSize + size }
  if s.requestSize > config.maxRequestSize then throw .kRequestTooLarge
  pure s

/-- `AddHeader`: the header assembled so far goes to the request by `InsertOrAppend`. -/
def addHeader (s : HeaderAssembly) : HeaderAssembly :=
  { s with
    headers := s.headers.insertOrAppend s.headerField s.headerValue
    headerField := ""
    headerValue := "" }

/-- `AppendHeaderField`: a name fragment after a value adds the previous header first. -/
def appendHeaderField (s : HeaderAssembly) (data : String) :
    Except HeaderError HeaderAssembly := do
  let s := if s.headerValueFlag then { s.addHeader with headerValueFlag := false } else s
  let s := { s with headerFieldFlag := true }
  let s ← s.account config data.length
  pure { s with headerField := s.headerField ++ data }

/-- `AppendHeaderValue`. -/
def appendHeaderValue (s : HeaderAssembly) (data : String) :
    Except HeaderError HeaderAssembly := do
  let s := { s with headerValueFlag := true }
  let s ← s.account config data.length
  pure { s with headerValue := s.headerValue ++ data }

end HeaderAssembly

/-- The `llhttp` callbacks of the header part of a request. -/
inductive ParserEvent where
  | headerField (data : String)
  | headerValue (data : String)
  | headersComplete
  deriving DecidableEq, Repr

/-- `OnHeaderFieldImpl`, `OnHeaderValueImpl` and `OnHeadersCompleteImpl`. -/
def HeaderAssembly.onParserEvent (config : RequestConfig) (s : HeaderAssembly) :
    ParserEvent → Except HeaderError HeaderAssembly
  | .headerField data => s.appendHeaderField config data
  | .headerValue data => s.appendHeaderValue config data
  | .headersComplete => s.appendHeaderField config ""

/-- The headers of an HTTP/1.1 request from its callbacks. -/
def http1Headers (config : RequestConfig) (events : List ParserEvent) :
    Except HeaderError HeaderMap :=
  HeaderAssembly.headers <$> events.foldlM (HeaderAssembly.onParserEvent config) {}

/-- `Http2Session::OnHeader` for one field: the pseudo-headers `:method` and `:path` set the
method and the URL, which this model leaves out; any other field is a name and a value. -/
def HeaderAssembly.onHeader (config : RequestConfig) (s : HeaderAssembly)
    (field : String × String) : Except HeaderError HeaderAssembly :=
  if field.1 = ":method" ∨ field.1 = ":path" then pure s
  else do
    let s ← s.appendHeaderField config field.1
    s.appendHeaderValue config field.2

/-- The headers of an HTTP/2 request from its fields; the end of the stream appends the empty
name (`OnFrameRecv`). -/
def http2Headers (config : RequestConfig) (fields : List (String × String)) :
    Except HeaderError HeaderMap := do
  let s ← fields.foldlM (HeaderAssembly.onHeader config) {}
  HeaderAssembly.headers <$> s.appendHeaderField config ""

/-! ### Headers from their callbacks -/

/-- The bytes a list of headers counts against the limits: its names and its values. -/
def headersLength (fields : List (String × String)) : Nat :=
  (fields.map fun f => f.1.length + f.2.length).sum

/-- One header as `llhttp` hands it over: its name in one or more `on_header_field` fragments,
then its value in one or more `on_header_value` fragments. -/
structure HeaderFragments where
  name : List String
  value : List String
  name_ne_nil : name ≠ []
  value_ne_nil : value ≠ []

namespace HeaderFragments

/-- The callbacks of the header, in order. -/
def events (h : HeaderFragments) : List ParserEvent :=
  h.name.map .headerField ++ h.value.map .headerValue

/-- The name and the value that the fragments make up. -/
def field (h : HeaderFragments) : String × String := (String.join h.name, String.join h.value)

/-- A field in one fragment of each kind, as `OnHeader` hands it over. -/
def whole (field : String × String) : HeaderFragments :=
  ⟨[field.1], [field.2], List.cons_ne_nil _ _, List.cons_ne_nil _ _⟩

@[simp] theorem field_whole (field : String × String) : (whole field).field = field := by
  simp [whole, HeaderFragments.field]

/-- A header's callbacks begin with a name fragment. -/
theorem events_eq_cons (h : HeaderFragments) :
    ∃ d es, h.events = .headerField d :: es := by
  obtain ⟨d, ds, hn⟩ := List.exists_cons_of_ne_nil h.name_ne_nil
  exact ⟨d, ds.map .headerField ++ h.value.map .headerValue, by rw [events, hn]; rfl⟩

/-- The callbacks of a list of headers and `on_headers_complete` begin with a name fragment or
`on_headers_complete`, never with a value fragment. -/
theorem exists_cons_flatMap_events (hs : List HeaderFragments) :
    ∃ e es, hs.flatMap events ++ [ParserEvent.headersComplete] = e :: es ∧
      ∀ d, e ≠ .headerValue d := by
  cases hs with
  | nil => exact ⟨_, _, rfl, fun _ h => ParserEvent.noConfusion h⟩
  | cons h hs =>
    obtain ⟨d, es, hes⟩ := h.events_eq_cons
    exact ⟨.headerField d, es ++ (hs.flatMap events ++ [.headersComplete]),
      by rw [List.flatMap_cons, hes, List.cons_append, List.cons_append, List.append_assoc],
      fun _ h => ParserEvent.noConfusion h⟩

theorem headersLength_field (h : HeaderFragments) :
    headersLength [h.field] = (h.name.map String.length).sum + (h.value.map String.length).sum := by
  simp [headersLength, HeaderFragments.field, String.length_join]

end HeaderFragments

theorem headersLength_cons (f : String × String) (fields : List (String × String)) :
    headersLength (f :: fields) = headersLength [f] + headersLength fields := by
  simp [headersLength]

namespace HeaderAssembly

/-- A header whose name is being read: `name` so far and no value yet, after `headers` were
added and `size` bytes counted.  Between two headers the name is empty. -/
def naming (headers : HeaderMap) (name : String) (size : Nat) : HeaderAssembly :=
  { headerField := name, headerFieldFlag := true, headersSize := size, requestSize := size,
    headers }

/-- The header `field` assembled and not added yet. -/
def pending (headers : HeaderMap) (field : String × String) (size : Nat) : HeaderAssembly :=
  { headerField := field.1, headerValue := field.2, headerFieldFlag := true,
    headerValueFlag := true, headersSize := size, requestSize := size, headers }

variable {config : RequestConfig}

/-- A name fragment is counted and appended to the name. -/
theorem onParserEvent_naming_headerField (H : HeaderMap) (name : String) (n : Nat) (d : String)
    (hh : n + d.length ≤ config.maxHeadersSize) (hr : n + d.length ≤ config.maxRequestSize) :
    (naming H name n).onParserEvent config (.headerField d) =
      pure (naming H (name ++ d) (n + d.length)) := by
  simp only [onParserEvent, appendHeaderField, naming]
  simp [account, Nat.not_lt.2 hh, Nat.not_lt.2 hr]

/-- A value fragment is counted and appended to the value of the pending header. -/
theorem onParserEvent_pending_headerValue (H : HeaderMap) (field : String × String) (n : Nat)
    (d : String) (hh : n + d.length ≤ config.maxHeadersSize)
    (hr : n + d.length ≤ config.maxRequestSize) :
    (pending H field n).onParserEvent config (.headerValue d) =
      pure (pending H (field.1, field.2 ++ d) (n + d.length)) := by
  simp only [onParserEvent, appendHeaderValue, pending]
  simp [account, Nat.not_lt.2 hh, Nat.not_lt.2 hr]

/-- The first value fragment ends the name: the header is pending from then on. -/
theorem onParserEvent_naming_headerValue (H : HeaderMap) (name : String) (n : Nat) (d : String) :
    (naming H name n).onParserEvent config (.headerValue d) =
      (pending H (name, "") n).onParserEvent config (.headerValue d) := rfl

/-- Any callback but a value fragment adds a pending header first (`AddHeader` when a name
fragment follows a value), and then acts as it would between two headers. -/
theorem onParserEvent_pending (H : HeaderMap) (field : String × String) (n : Nat)
    {e : ParserEvent} (he : ∀ d, e ≠ .headerValue d) :
    (pending H field n).onParserEvent config e =
      (naming (H.insertOrAppend field.1 field.2) "" n).onParserEvent config e := by
  cases e with
  | headerField d => rfl
  | headerValue d => exact absurd rfl (he d)
  | headersComplete => rfl

theorem foldlM_naming_headerField (H : HeaderMap) : ∀ (ds : List String) (name : String) (n : Nat),
    n + (ds.map String.length).sum ≤ config.maxHeadersSize →
    n + (ds.map String.length).sum ≤ config.maxRequestSize →
    (ds.map ParserEvent.headerField).foldlM (onParserEvent config) (naming H name n) =
      pure (naming H (name ++ String.join ds) (n + (ds.map String.length).sum))
  | [], name, n, _, _ => by simp
  | d :: ds, name, n, hh, hr => by
    simp only [List.map_cons, List.sum_cons] at hh hr
    rw [List.map_cons, List.foldlM_cons,
      onParserEvent_naming_headerField H name n d (by omega) (by omega)]
    rw [pure_bind]
    rw [foldlM_naming_headerField H ds (name ++ d) (n + d.length) (by omega) (by omega)]
    simp [String.join_cons, String.append_assoc, Nat.add_assoc]

theorem foldlM_pending_headerValue (H : HeaderMap) (name : String) :
    ∀ (ds : List String) (value : String) (n : Nat),
    n + (ds.map String.length).sum ≤ config.maxHeadersSize →
    n + (ds.map String.length).sum ≤ config.maxRequestSize →
    (ds.map ParserEvent.headerValue).foldlM (onParserEvent config) (pending H (name, value) n) =
      pure (pending H (name, value ++ String.join ds) (n + (ds.map String.length).sum))
  | [], value, n, _, _ => by simp
  | d :: ds, value, n, hh, hr => by
    simp only [List.map_cons, List.sum_cons] at hh hr
    rw [List.map_cons, List.foldlM_cons,
      onParserEvent_pending_headerValue H (name, value) n d (by omega) (by omega)]
    rw [pure_bind]
    rw [foldlM_pending_headerValue H name ds (value ++ d) (n + d.length) (by omega) (by omega)]
    simp [String.join_cons, String.append_assoc, Nat.add_assoc]

/-- The callbacks of one header from between two headers: the header is assembled and pending. -/
theorem foldlM_events (H : HeaderMap) (h : HeaderFragments) (n : Nat)
    (hh : n + headersLength [h.field] ≤ config.maxHeadersSize)
    (hr : n + headersLength [h.field] ≤ config.maxRequestSize) :
    h.events.foldlM (onParserEvent config) (naming H "" n) =
      pure (pending H h.field (n + headersLength [h.field])) := by
  rw [h.headersLength_field] at hh hr ⊢
  obtain ⟨d, ds, hv⟩ := List.exists_cons_of_ne_nil h.value_ne_nil
  rw [HeaderFragments.events, List.foldlM_append,
    foldlM_naming_headerField H h.name "" n (by omega) (by omega)]
  rw [pure_bind]
  -- the first value fragment turns the name into a pending header
  rw [hv, List.map_cons, List.foldlM_cons, onParserEvent_naming_headerValue, ← List.foldlM_cons,
    ← List.map_cons, foldlM_pending_headerValue H _ (d :: ds) "" _ (by rw [← hv]; omega)
      (by rw [← hv]; omega)]
  simp [HeaderFragments.field, hv, Nat.add_assoc]

/-- The callbacks of a list of headers and `on_headers_complete`, from between two headers:
every header is added by `InsertOrAppend`, in order. -/
theorem foldlM_flatMap_events : ∀ (hs : List HeaderFragments) (H : HeaderMap) (n : Nat),
    n + headersLength (hs.map HeaderFragments.field) ≤ config.maxHeadersSize →
    n + headersLength (hs.map HeaderFragments.field) ≤ config.maxRequestSize →
    (hs.flatMap HeaderFragments.events ++ [ParserEvent.headersComplete]).foldlM
        (onParserEvent config) (naming H "" n) =
      pure (naming (H.ofFields (hs.map HeaderFragments.field)) ""
        (n + headersLength (hs.map HeaderFragments.field)))
  | [], H, n, hh, hr => by
    simp only [List.map_nil, headersLength, List.sum_nil, Nat.add_zero] at hh hr
    simp only [List.flatMap_nil, List.nil_append, List.foldlM_cons, List.foldlM_nil]
    simp [onParserEvent, appendHeaderField, naming, account, headersLength, HeaderMap.ofFields,
      Nat.not_lt.2 hh, Nat.not_lt.2 hr]
  | h :: hs, H, n, hh, hr => by
    rw [List.map_cons, headersLength_cons] at hh hr
    rw [List.flatMap_cons, List.append_assoc, List.foldlM_append,
      foldlM_events H h n (by omega) (by omega)]
    rw [pure_bind]
    -- what follows begins with a name or `on_headers_complete`, which adds the pending header
    obtain ⟨e, es, hes, he⟩ := HeaderFragments.exists_cons_flatMap_events hs
    rw [hes, List.foldlM_cons, onParserEvent_pending H h.field _ he, ← List.foldlM_cons, ← hes,
      foldlM_flatMap_events hs _ _ (by omega) (by omega)]
    rw [List.map_cons, headersLength_cons, Nat.add_assoc]
    rfl

end HeaderAssembly

/-- The headers of an HTTP/1.1 request, from the callbacks of its headers in any fragments:
every header added by `InsertOrAppend`, in order. -/
theorem http1Headers_flatMap_events (config : RequestConfig) (hs : List HeaderFragments)
    (hh : headersLength (hs.map HeaderFragments.field) ≤ config.maxHeadersSize)
    (hr : headersLength (hs.map HeaderFragments.field) ≤ config.maxRequestSize) :
    http1Headers config (hs.flatMap HeaderFragments.events ++ [ParserEvent.headersComplete]) =
      .ok (HeaderMap.empty.ofFields (hs.map HeaderFragments.field)) := by
  -- the initial state acts on the first callback as the state between two headers does
  obtain ⟨e, es, hes, he⟩ := HeaderFragments.exists_cons_flatMap_events hs
  have hinit : ({} : HeaderAssembly).onParserEvent config e =
      (HeaderAssembly.naming .empty "" 0).onParserEvent config e := by
    cases e with
    | headerField d => rfl
    | headerValue d => exact absurd rfl (he d)
    | headersComplete => rfl
  unfold http1Headers
  rw [hes, List.foldlM_cons, hinit, ← List.foldlM_cons, ← hes,
    HeaderAssembly.foldlM_flatMap_events hs _ 0 (by omega) (by omega)]
  rfl

/-- `OnHeader` of a field that is not `:method` or `:path`: the callbacks of its name and its
value, each in one fragment. -/
theorem onHeader_eq_foldlM (config : RequestConfig) (s : HeaderAssembly) (f : String × String)
    (hf : ¬(f.1 = ":method" ∨ f.1 = ":path")) :
    s.onHeader config f = (HeaderFragments.whole f).events.foldlM (HeaderAssembly.onParserEvent config) s := by
  simp [HeaderAssembly.onHeader, hf, HeaderFragments.events, HeaderFragments.whole,
    HeaderAssembly.onParserEvent]

theorem foldlM_onHeader (config : RequestConfig) :
    ∀ (fields : List (String × String)) (s : HeaderAssembly),
    fields.foldlM (HeaderAssembly.onHeader config) s =
      (((fields.filter fun f => !(f.1 = ":method" ∨ f.1 = ":path")).map HeaderFragments.whole).flatMap
        HeaderFragments.events).foldlM (HeaderAssembly.onParserEvent config) s
  | [], s => rfl
  | f :: fields, s => by
    by_cases hf : f.1 = ":method" ∨ f.1 = ":path"
    · have hskip : s.onHeader config f = pure s := by simp [HeaderAssembly.onHeader, hf]
      rw [List.foldlM_cons, hskip, pure_bind, foldlM_onHeader config fields s, List.filter_cons_of_neg (by simp [hf])]
    · rw [List.foldlM_cons, onHeader_eq_foldlM config s f hf, List.filter_cons_of_pos (by simp [hf]),
        List.map_cons, List.flatMap_cons, List.foldlM_append]
      exact congrArg _ (funext fun s => foldlM_onHeader config fields s)

/-- The headers of an HTTP/2 request: those of its fields that are not `:method` or `:path`, as
if each came over HTTP/1.1 in one fragment of each kind. -/
theorem http2Headers_eq_http1Headers (config : RequestConfig) (fields : List (String × String)) :
    http2Headers config fields =
      http1Headers config
        (((fields.filter fun f => !(f.1 = ":method" ∨ f.1 = ":path")).map HeaderFragments.whole).flatMap
          HeaderFragments.events ++ [ParserEvent.headersComplete]) := by
  unfold http2Headers http1Headers
  rw [foldlM_onHeader, List.foldlM_append]
  simp [HeaderAssembly.onParserEvent]

/-- `isspace` in the C locale. -/
def isSpace (c : Char) : Bool :=
  c = ' ' ∨ c = '\t' ∨ c = '\n' ∨ c = '\x0b' ∨ c = '\x0c' ∨ c = '\r'

/-- The first loop of `Strip`: the begin pointer past the whitespace, with the fuel the distance
to the end. -/
def stripBegin (s : List Char) : Nat → Nat → Nat → Nat
  | 0, b, _ => b
  | fuel + 1, b, e => if b < e ∧ isSpace (s.getD b ' ') then stripBegin s fuel (b + 1) e else b

/-- The second loop of `Strip`: the end pointer back over the whitespace. -/
def stripEnd (s : List Char) : Nat → Nat → Nat → Nat
  | 0, _, e => e
  | fuel + 1, b, e => if b < e ∧ isSpace (s.getD (e - 1) ' ') then stripEnd s fuel b (e - 1) else e

/-- `Strip(begin, end)`. -/
def strip (s : List Char) (b e : Nat) : Nat × Nat :=
  let b := stripBegin s (e - b) b e
  (b, stripEnd s (e - b) b e)

/-- The characters from `b` to `e`. -/
def substr (s : List Char) (b e : Nat) : String := String.ofList ((s.drop b).take (e - b))

/-- `cookies.emplace(key, value)`: a cookie already present keeps its value. -/
def emplaceCookie (cookies : List (String × String)) (key value : String) :
    List (String × String) :=
  if cookies.any (·.1 == key) then cookies else cookies ++ [(key, value)]

/-- The state of the scan of `ParseCookies`: where the key begins and ends, whether the scan is
in the key, and the cookies so far. -/
structure CookieScan where
  keyBegin : Nat
  keyEnd : Nat
  parseKey : Bool
  cookies : List (String × String)
  deriving DecidableEq, Repr

/-- One turn of the loop of `ParseCookies` at `ptr`, which is the end at `ptr = size`. -/
def parseCookiesStep (s : List Char) (st : CookieScan) (ptr : Nat) : CookieScan :=
  match s[ptr]? with
  | none => endPair
  | some ';' => endPair
  | some '=' => if st.parseKey then { st with parseKey := false, keyEnd := ptr } else st
  | some _ => st
where
  /-- The end of a pair: its key, its value without whitespace and one pair of quotes, and the
  cookie added when the key is not empty. -/
  endPair : CookieScan :=
    let (keyEnd, valueBegin, valueEnd) :=
      if st.parseKey then (ptr, ptr, ptr)
      else
        let (valueBegin, valueEnd) := strip s (st.keyEnd + 1) ptr
        if valueBegin + 2 ≤ valueEnd ∧ s.getD valueBegin ' ' = '"' ∧
            s.getD (valueEnd - 1) ' ' = '"' then (st.keyEnd, valueBegin + 1, valueEnd - 1)
        else (st.keyEnd, valueBegin, valueEnd)
    let (keyBegin, keyEnd') := strip s st.keyBegin keyEnd
    let cookies := if keyBegin < keyEnd' then
        emplaceCookie st.cookies (substr s keyBegin keyEnd') (substr s valueBegin valueEnd)
      else st.cookies
    ⟨ptr + 1, keyEnd, true, cookies⟩

/-- `ParseCookies` of the `Cookie` header. -/
def parseCookies (cookie : String) : List (String × String) :=
  let s := cookie.toList
  ((List.range (s.length + 1)).foldl (parseCookiesStep s) ⟨0, 0, true, []⟩).cookies

/-! ### A cookie-string as RFC 6265 reads it -/

/-- A list of characters without the whitespace at both ends. -/
def trimSpace (l : List Char) : List Char := ((l.dropWhile isSpace).reverse.dropWhile isSpace).reverse

/-- A value without one pair of surrounding double quotes. -/
def unquote (l : List Char) : List Char :=
  if 2 ≤ l.length ∧ l.head? = some '"' ∧ l.getLast? = some '"' then (l.drop 1).dropLast else l

/-- The parse of a cookie-string as RFC 6265 reads it: pairs split at ';', name and value split at
the first '=', whitespace and one pair of double quotes removed around the value, whitespace
removed around the name, pairs with an empty name dropped, the first occurrence of a name
kept. -/
def rfcCookies (cookieString : String) : List (String × String) :=
  ((cookieString.toList.splitOnP (· = ';')).filterMap fun pair =>
    let name := trimSpace (pair.takeWhile (· ≠ '='))
    let value := unquote (trimSpace ((pair.dropWhile (· ≠ '=')).drop 1))
    if name = [] then none else some (String.ofList name, String.ofList value)).foldl
      (fun cookies cookie => emplaceCookie cookies cookie.1 cookie.2) []

/-- The cookie one pair of a cookie-string makes, as `rfcCookies` reads it. -/
def rfcCookie (pair : List Char) : Option (String × String) :=
  let name := trimSpace (pair.takeWhile (· ≠ '='))
  let value := unquote (trimSpace ((pair.dropWhile (· ≠ '=')).drop 1))
  if name = [] then none else some (String.ofList name, String.ofList value)

/-- `emplace` of the cookie a pair makes, if it makes one. -/
def addCookie (cookies : List (String × String)) (pair : List Char) : List (String × String) :=
  match rfcCookie pair with
  | some cookie => emplaceCookie cookies cookie.1 cookie.2
  | none => cookies

theorem rfcCookies_eq_foldl (cookieString : String) :
    rfcCookies cookieString = (cookieString.toList.splitOnP (· = ';')).foldl addCookie [] := by
  rw [rfcCookies, List.foldl_filterMap]
  congr 1
  funext cookies pair
  unfold addCookie
  -- the two matches are the same but for the names they bind
  cases h : rfcCookie pair <;> (simp only [rfcCookie] at h; simp only [h])

/-- A pair with an `'='`: the name before the first one, the value after it. -/
theorem rfcCookie_of_eq {key val : List Char} (hkey : ∀ c ∈ key, c ≠ '=') :
    rfcCookie (key ++ '=' :: val) =
      if trimSpace key = [] then none
      else some (String.ofList (trimSpace key), String.ofList (unquote (trimSpace val))) := by
  have hpos : ∀ c ∈ key, decide (c ≠ '=') = true := by simpa using hkey
  have htake : (key ++ '=' :: val).takeWhile (· ≠ '=') = key := by
    rw [List.takeWhile_append_of_pos hpos]
    simp
  have hdrop : (key ++ '=' :: val).dropWhile (· ≠ '=') = '=' :: val := by
    rw [List.dropWhile_append_of_pos hpos]
    simp
  simp only [rfcCookie, htake, hdrop, List.drop_one, List.tail_cons]

/-- A pair without `'='`: all of it is the name, and the value is empty. -/
theorem rfcCookie_of_key {key : List Char} (hkey : ∀ c ∈ key, c ≠ '=') :
    rfcCookie key = if trimSpace key = [] then none else some (String.ofList (trimSpace key), "") := by
  have hpos : ∀ c ∈ key, decide (c ≠ '=') = true := by simpa using hkey
  have htake : key.takeWhile (· ≠ '=') = key := List.takeWhile_eq_self_iff.2 hpos
  have hdrop : key.dropWhile (· ≠ '=') = [] := List.dropWhile_eq_nil_iff.2 hpos
  simp only [rfcCookie, htake, hdrop, List.drop_nil]
  rfl

/-- A list cut at the first occurrence of a character: a pair at its first `'='`, a
cookie-string at its first `';'`. -/
theorem exists_eq_append_cons_of_mem {c : Char} {l : List Char} (h : c ∈ l) :
    ∃ pre post, l = pre ++ c :: post ∧ ∀ x ∈ pre, x ≠ c := by
  have hpre : ∀ x ∈ l.takeWhile (· ≠ c), x ≠ c := fun x hx => by
    simpa using List.mem_takeWhile_imp hx
  cases hafter : l.dropWhile (· ≠ c) with
  | nil =>
    have hno := List.dropWhile_eq_nil_iff.1 hafter c h
    simp at hno
  | cons d post =>
    -- the first character `dropWhile` keeps is `c`
    have hd : d = c := by
      have hhead := List.head?_dropWhile_not (· ≠ c) l
      rw [hafter] at hhead
      simpa using hhead
    subst hd
    refine ⟨_, post, ?_, hpre⟩
    rw [← hafter, List.takeWhile_append_dropWhile]

/-! ### The scan of `ParseCookies` -/

section Scan

variable {s : List Char}

theorem getElem?_of_drop_eq {a : Nat} {t : List Char} (h : s.drop a = t) : s[a]? = t.head? := by
  rw [← h, List.head?_eq_getElem?, List.getElem?_drop, Nat.add_zero]

theorem drop_add_one_of_drop_eq {a : Nat} {c : Char} {rest : List Char}
    (h : s.drop a = c :: rest) : s.drop (a + 1) = rest := by
  rw [← List.drop_drop, h]
  rfl

theorem drop_add_length_of_drop_eq {a : Nat} {l rest : List Char} (h : s.drop a = l ++ rest) :
    s.drop (a + l.length) = rest := by
  rw [← List.drop_drop, h, List.drop_left]

theorem add_length_le_of_drop_eq {a : Nat} {l rest : List Char} (ha : a ≤ s.length)
    (h : s.drop a = l ++ rest) : a + l.length ≤ s.length := by
  have hlen := congrArg List.length h
  simp only [List.length_drop, List.length_append] at hlen
  omega

/-- A character that is not `';'`, and not an `'='` that ends a key, leaves the scan as it is. -/
theorem parseCookiesStep_of_getElem? {st : CookieScan} {ptr : Nat} {c : Char}
    (h : s[ptr]? = some c) (hsemi : c ≠ ';') (heq : c = '=' → st.parseKey = false) :
    parseCookiesStep s st ptr = st := by
  unfold parseCookiesStep
  rw [h]
  by_cases hc : c = '='
  · subst hc
    simp [heq rfl]
  · split <;> simp_all

/-- The first `'='` of a pair ends its key. -/
theorem parseCookiesStep_of_eq {st : CookieScan} {ptr : Nat} (h : s[ptr]? = some '=')
    (hk : st.parseKey = true) :
    parseCookiesStep s st ptr = { st with parseKey := false, keyEnd := ptr } := by
  unfold parseCookiesStep
  rw [h]
  simp [hk]

/-- A `';'`, or the end of the string, ends a pair. -/
theorem parseCookiesStep_of_end {st : CookieScan} {ptr : Nat}
    (h : s[ptr]? = none ∨ s[ptr]? = some ';') :
    parseCookiesStep s st ptr = parseCookiesStep.endPair s st ptr := by
  unfold parseCookiesStep
  rcases h with h | h <;> simp [h]

/-- A stretch without `';'`, and without `'='` while the key is read, leaves the scan as it is. -/
theorem foldl_parseCookiesStep_of_forall {st : CookieScan} :
    ∀ (t rest : List Char) (a : Nat), s.drop a = t ++ rest →
      (∀ c ∈ t, c ≠ ';' ∧ (c = '=' → st.parseKey = false)) →
      (List.range' a t.length).foldl (parseCookiesStep s) st = st
  | [], _, _, _, _ => rfl
  | c :: t, rest, a, hs, ht => by
    have hc := ht c List.mem_cons_self
    rw [List.length_cons, List.range'_succ, List.foldl_cons,
      parseCookiesStep_of_getElem? (getElem?_of_drop_eq hs) hc.1 hc.2]
    exact foldl_parseCookiesStep_of_forall t rest (a + 1) (drop_add_one_of_drop_eq hs)
      fun c hc => ht c (List.mem_cons_of_mem _ hc)

/-- The characters from `b` to `e`, the first one split off. -/
theorem take_drop_eq_cons {b e : Nat} (hbe : b < e) (hes : e ≤ s.length) :
    (s.drop b).take (e - b) = s.getD b ' ' :: (s.drop (b + 1)).take (e - (b + 1)) := by
  rw [List.drop_eq_getElem_cons (by omega), show e - b = e - (b + 1) + 1 by omega,
    List.take_succ_cons, List.getD_eq_getElem _ _ (by omega)]

/-- The characters from `b` to `e`, the last one split off. -/
theorem take_drop_eq_concat {b e : Nat} (hbe : b < e) (hes : e ≤ s.length) :
    (s.drop b).take (e - b) = (s.drop b).take (e - 1 - b) ++ [s.getD (e - 1) ' '] := by
  rw [show e - b = e - 1 - b + 1 by omega, List.take_add_one, List.getElem?_drop,
    show b + (e - 1 - b) = e - 1 by omega, List.getD_eq_getElem?_getD,
    List.getElem?_eq_getElem (by omega)]
  rfl

/-- The first loop of `Strip` skips the whitespace at the front of the characters. -/
theorem stripBegin_spec : ∀ (fuel b e : Nat), e - b ≤ fuel → b ≤ e → e ≤ s.length →
    b ≤ stripBegin s fuel b e ∧ stripBegin s fuel b e ≤ e ∧
      (s.drop (stripBegin s fuel b e)).take (e - stripBegin s fuel b e) =
        ((s.drop b).take (e - b)).dropWhile isSpace
  | 0, b, e, hf, hbe, _ => by
    obtain rfl : e = b := by omega
    simp [stripBegin]
  | fuel + 1, b, e, hf, hbe, hes => by
    rw [stripBegin]
    split_ifs with h
    · obtain ⟨hlt, hsp⟩ := h
      obtain ⟨h₁, h₂, h₃⟩ := stripBegin_spec fuel (b + 1) e (by omega) hlt hes
      refine ⟨by omega, h₂, ?_⟩
      rw [h₃, take_drop_eq_cons hlt hes, List.dropWhile_cons_of_pos hsp]
    · refine ⟨le_rfl, hbe, ?_⟩
      rcases Nat.lt_or_ge b e with hlt | hge
      · have hsp : ¬isSpace (s.getD b ' ') = true := fun hsp => h ⟨hlt, hsp⟩
        rw [take_drop_eq_cons hlt hes, List.dropWhile_cons_of_neg hsp]
      · simp [show e - b = 0 by omega]

/-- The second loop of `Strip` drops the whitespace at the back of the characters. -/
theorem stripEnd_spec : ∀ (fuel b e : Nat), e - b ≤ fuel → b ≤ e → e ≤ s.length →
    b ≤ stripEnd s fuel b e ∧ stripEnd s fuel b e ≤ e ∧
      (s.drop b).take (stripEnd s fuel b e - b) = ((s.drop b).take (e - b)).rdropWhile isSpace
  | 0, b, e, hf, hbe, _ => by
    obtain rfl : e = b := by omega
    simp [stripEnd]
  | fuel + 1, b, e, hf, hbe, hes => by
    rw [stripEnd]
    split_ifs with h
    · obtain ⟨hlt, hsp⟩ := h
      obtain ⟨h₁, h₂, h₃⟩ := stripEnd_spec fuel b (e - 1) (by omega) (by omega) (by omega)
      refine ⟨h₁, by omega, ?_⟩
      rw [h₃, take_drop_eq_concat hlt hes, List.rdropWhile_concat_pos _ _ _ hsp,
        show e - 1 - b = e - 1 - b from rfl]
    · refine ⟨hbe, le_rfl, ?_⟩
      rcases Nat.lt_or_ge b e with hlt | hge
      · have hsp : ¬isSpace (s.getD (e - 1) ' ') = true := fun hsp => h ⟨hlt, hsp⟩
        rw [take_drop_eq_concat hlt hes, List.rdropWhile_concat_neg _ _ _ hsp]
      · simp [show e - b = 0 by omega]

/-- `Strip` leaves the characters between its pointers without whitespace at either end. -/
theorem strip_spec {b e : Nat} (hbe : b ≤ e) (hes : e ≤ s.length) :
    b ≤ (strip s b e).1 ∧ (strip s b e).1 ≤ (strip s b e).2 ∧ (strip s b e).2 ≤ e ∧
      (s.drop (strip s b e).1).take ((strip s b e).2 - (strip s b e).1) =
        trimSpace ((s.drop b).take (e - b)) := by
  obtain ⟨hb₁, hb₂, hb₃⟩ := stripBegin_spec (s := s) (e - b) b e le_rfl hbe hes
  obtain ⟨he₁, he₂, he₃⟩ := stripEnd_spec (s := s) (e - stripBegin s (e - b) b e)
    (stripBegin s (e - b) b e) e le_rfl hb₂ hes
  refine ⟨hb₁, he₁, he₂, ?_⟩
  -- `trimSpace` is `rdropWhile` after `dropWhile`
  show _ = List.rdropWhile isSpace (((s.drop b).take (e - b)).dropWhile isSpace)
  rw [← hb₃]
  exact he₃

/-- The characters between `b` and `e ≤ s.length`, as many as the pointers are apart. -/
theorem length_take_drop {b e : Nat} (hes : e ≤ s.length) :
    ((s.drop b).take (e - b)).length = e - b := by
  simp only [List.length_take, List.length_drop]
  omega

/-- The test of `ParseCookies` for a quoted value reads the ends of the stripped value, and the
value between the quotes is `unquote` of it. -/
theorem unquote_take_drop {b e : Nat} (hbe : b ≤ e) (hes : e ≤ s.length) :
    (if b + 2 ≤ e ∧ s.getD b ' ' = '"' ∧ s.getD (e - 1) ' ' = '"' then
        (s.drop (b + 1)).take (e - 1 - (b + 1))
      else (s.drop b).take (e - b)) = unquote ((s.drop b).take (e - b)) := by
  unfold unquote
  rw [length_take_drop hes]
  by_cases hlen : b + 2 ≤ e
  · -- the value has a first and a last character, read at `b` and at `e - 1`
    have hcons := take_drop_eq_cons (s := s) (by omega : b < e) hes
    have hconcat := take_drop_eq_concat (s := s) (by omega : b < e) hes
    have hhead : ((s.drop b).take (e - b)).head? = some (s.getD b ' ') := by rw [hcons]; rfl
    have hlast : ((s.drop b).take (e - b)).getLast? = some (s.getD (e - 1) ' ') := by
      rw [hconcat, List.getLast?_concat]
    have hinner : (((s.drop b).take (e - b)).drop 1).dropLast =
        (s.drop (b + 1)).take (e - 1 - (b + 1)) := by
      have hlen' := length_take_drop (s := s) (b := b) (e := e - 1) (by omega)
      rw [hconcat, List.drop_append_of_le_length (by omega), List.dropLast_concat, List.drop_take,
        List.drop_drop, show e - 1 - b - 1 = e - 1 - (b + 1) by omega]
    simp only [hhead, hlast, Option.some.injEq, hinner, show 2 ≤ e - b ↔ b + 2 ≤ e by omega]
  · simp only [hlen, false_and, if_false]
    split_ifs with h
    · exact absurd h.1 (by omega)
    · rfl

/-- What `Strip` leaves of the characters from `b` to `e`, as a string. -/
theorem substr_strip {b e : Nat} (hbe : b ≤ e) (hes : e ≤ s.length) :
    substr s (strip s b e).1 (strip s b e).2 = String.ofList (trimSpace ((s.drop b).take (e - b))) := by
  rw [substr, (strip_spec hbe hes).2.2.2]

/-- `Strip` leaves something of the characters exactly when they are not all whitespace. -/
theorem strip_lt_iff {b e : Nat} (hbe : b ≤ e) (hes : e ≤ s.length) :
    (strip s b e).1 < (strip s b e).2 ↔ trimSpace ((s.drop b).take (e - b)) ≠ [] := by
  obtain ⟨-, h₂, h₃, h₄⟩ := strip_spec hbe hes
  rw [← h₄, ne_eq, ← List.length_eq_zero_iff, length_take_drop (by omega)]
  omega

/-- The value of `ParseCookies`: stripped, then without one pair of surrounding quotes. -/
theorem substr_unquote {b e : Nat} (hbe : b ≤ e) (hes : e ≤ s.length) :
    (if (strip s b e).1 + 2 ≤ (strip s b e).2 ∧ s.getD (strip s b e).1 ' ' = '"' ∧
        s.getD ((strip s b e).2 - 1) ' ' = '"' then
      substr s ((strip s b e).1 + 1) ((strip s b e).2 - 1)
    else substr s (strip s b e).1 (strip s b e).2) =
      String.ofList (unquote (trimSpace ((s.drop b).take (e - b)))) := by
  obtain ⟨-, h₂, h₃, h₄⟩ := strip_spec hbe hes
  have hq := unquote_take_drop (s := s) h₂ (by omega)
  rw [← h₄, ← hq]
  split_ifs <;> rfl

/-- The end of a pair whose key an `'='` ended: the key and the value between the pointers,
stripped, and the value unquoted. -/
theorem endPair_of_not_parseKey {st : CookieScan} {ptr : Nat} (hk : st.parseKey = false)
    (hkey : st.keyBegin ≤ st.keyEnd) (hvalue : st.keyEnd < ptr) (hptr : ptr ≤ s.length) :
    parseCookiesStep.endPair s st ptr =
      ⟨ptr + 1, st.keyEnd, true,
        if trimSpace ((s.drop st.keyBegin).take (st.keyEnd - st.keyBegin)) = [] then st.cookies
        else emplaceCookie st.cookies
          (String.ofList (trimSpace ((s.drop st.keyBegin).take (st.keyEnd - st.keyBegin))))
          (String.ofList
            (unquote (trimSpace ((s.drop (st.keyEnd + 1)).take (ptr - (st.keyEnd + 1))))))⟩ := by
  have hsub := substr_strip (s := s) hkey (by omega)
  have hlt := strip_lt_iff (s := s) hkey (by omega)
  have hval := substr_unquote (s := s) (b := st.keyEnd + 1) hvalue hptr
  simp only [parseCookiesStep.endPair, hk, Bool.false_eq_true, if_false]
  -- the value is quoted or not; either way it is `unquote` of the stripped value
  split_ifs at hval ⊢ with hq hempty hempty <;> simp_all

/-- The end of a pair without `'='`: all of it is the key, and the value is empty. -/
theorem endPair_of_parseKey {st : CookieScan} {ptr : Nat} (hk : st.parseKey = true)
    (hkey : st.keyBegin ≤ ptr) (hptr : ptr ≤ s.length) :
    parseCookiesStep.endPair s st ptr =
      ⟨ptr + 1, ptr, true,
        if trimSpace ((s.drop st.keyBegin).take (ptr - st.keyBegin)) = [] then st.cookies
        else emplaceCookie st.cookies
          (String.ofList (trimSpace ((s.drop st.keyBegin).take (ptr - st.keyBegin)))) ""⟩ := by
  have hsub := substr_strip (s := s) hkey hptr
  have hlt := strip_lt_iff (s := s) hkey hptr
  have hnil : substr s ptr ptr = "" := by simp [substr]
  simp only [parseCookiesStep.endPair, hk, if_true]
  split_ifs <;> simp_all

/-- The characters from `b` to `e`, when the string from `b` on is known. -/
theorem take_drop_of_drop_eq {b e : Nat} {l rest : List Char} (h : s.drop b = l ++ rest)
    (he : e = b + l.length) : (s.drop b).take (e - b) = l := by
  rw [h, he, Nat.add_sub_cancel_left, List.take_left' rfl]

/-- One pair of the cookie-string, up to the `';'` that ends it or the end of the string: the
scan adds the cookie the pair makes, and starts the next pair after it. -/
theorem foldl_pair {a kE : Nat} {cs : List (String × String)} {pair rest : List Char}
    (ha : a ≤ s.length) (hs : s.drop a = pair ++ rest) (hpair : ∀ c ∈ pair, c ≠ ';')
    (hrest : rest.head? = none ∨ rest.head? = some ';') :
    ∃ kE', (List.range' a (pair.length + 1)).foldl (parseCookiesStep s) ⟨a, kE, true, cs⟩ =
      ⟨a + pair.length + 1, kE', true, addCookie cs pair⟩ := by
  have hlen := add_length_le_of_drop_eq ha hs
  have hend : s[a + pair.length]? = none ∨ s[a + pair.length]? = some ';' := by
    rw [getElem?_of_drop_eq (drop_add_length_of_drop_eq hs)]
    exact hrest
  rw [List.range'_concat, Nat.one_mul, List.foldl_append, List.foldl_cons, List.foldl_nil]
  by_cases hmem : '=' ∈ pair
  · -- the key ends at the first `'='`, the value runs to the end of the pair
    obtain ⟨key, val, rfl, hkey⟩ := exists_eq_append_cons_of_mem hmem
    have hlength : (key ++ '=' :: val).length = key.length + 1 + val.length := by simp; omega
    rw [hlength] at hend hlen ⊢
    have hs' : s.drop a = key ++ ('=' :: val ++ rest) := by rw [hs, List.append_assoc]
    have hval : s.drop (a + key.length + 1) = val ++ rest :=
      drop_add_one_of_drop_eq (drop_add_length_of_drop_eq hs')
    have heq : s[a + key.length]? = some '=' := getElem?_of_drop_eq (drop_add_length_of_drop_eq hs')
    -- the key leaves the scan as it is, its `'='` ends it, and the value leaves the scan as it is
    have hkeyStep : (List.range' a key.length).foldl (parseCookiesStep s) ⟨a, kE, true, cs⟩ =
        ⟨a, kE, true, cs⟩ :=
      foldl_parseCookiesStep_of_forall key _ a hs' fun c hc =>
        ⟨hpair c (by simp [hc]), fun h => absurd h (hkey c hc)⟩
    have heqStep : parseCookiesStep s ⟨a, kE, true, cs⟩ (a + key.length) =
        ⟨a, a + key.length, false, cs⟩ := parseCookiesStep_of_eq heq rfl
    have hvalStep : (List.range' (a + (key.length + 1)) val.length).foldl (parseCookiesStep s)
        ⟨a, a + key.length, false, cs⟩ = ⟨a, a + key.length, false, cs⟩ :=
      foldl_parseCookiesStep_of_forall val rest _ (by rw [← Nat.add_assoc]; exact hval)
        fun c hc => ⟨hpair c (by simp [hc]), fun _ => rfl⟩
    have hendStep : parseCookiesStep s ⟨a, a + key.length, false, cs⟩ (a + (key.length + 1 + val.length)) =
        ⟨a + (key.length + 1 + val.length) + 1, a + key.length, true,
          addCookie cs (key ++ '=' :: val)⟩ := by
      rw [parseCookiesStep_of_end hend, endPair_of_not_parseKey rfl (by simp) (by simp; omega) hlen]
      simp only [take_drop_of_drop_eq hs' rfl, take_drop_of_drop_eq hval (by omega : a +
        (key.length + 1 + val.length) = a + key.length + 1 + val.length), addCookie,
        rfcCookie_of_eq hkey]
      split_ifs <;> rfl
    rw [← List.range'_append, List.range'_concat, Nat.one_mul, Nat.one_mul, List.foldl_append,
      List.foldl_append, List.foldl_cons, List.foldl_nil, hkeyStep, heqStep, hvalStep, hendStep]
    exact ⟨_, rfl⟩
  · -- no `'='`: all of the pair is the key
    have hno : ∀ c ∈ pair, c ≠ '=' := fun c hc h => hmem (h ▸ hc)
    rw [foldl_parseCookiesStep_of_forall pair rest a hs fun c hc =>
        ⟨hpair c hc, fun h => absurd h (hno c hc)⟩,
      parseCookiesStep_of_end hend, endPair_of_parseKey rfl (by simp) hlen]
    refine ⟨a + pair.length, ?_⟩
    simp only [take_drop_of_drop_eq hs rfl, addCookie, rfcCookie_of_key hno]
    split_ifs <;> rfl

/-- The scan of the rest of the string from the start of a pair adds the cookies of its pairs in
order; the induction is on the length of the rest, one pair at a time. -/
theorem foldl_pairs : ∀ (n : Nat) (t : List Char) (a kE : Nat) (cs : List (String × String)),
    t.length = n → a ≤ s.length → s.drop a = t →
    ((List.range' a (t.length + 1)).foldl (parseCookiesStep s) ⟨a, kE, true, cs⟩).cookies =
      (t.splitOnP (· = ';')).foldl addCookie cs := by
  intro n
  induction n using Nat.strong_induction_on with
  | _ n ih =>
    intro t a kE cs hn ha hs
    by_cases hsemi : ';' ∈ t
    · -- the first pair ends at the first `';'`
      obtain ⟨pair, t', rfl, hpair⟩ := exists_eq_append_cons_of_mem hsemi
      have hlength : (pair ++ ';' :: t').length + 1 = (pair.length + 1) + (t'.length + 1) := by
        simp
        omega
      obtain ⟨kE', hpairStep⟩ := foldl_pair ha hs hpair (Or.inr rfl)
      have hle := add_length_le_of_drop_eq ha
        (show s.drop a = (pair ++ [';']) ++ t' by rw [hs, List.append_assoc, List.singleton_append])
      rw [List.length_append, List.length_singleton] at hle
      have hrest : s.drop (a + pair.length + 1) = t' :=
        drop_add_one_of_drop_eq (drop_add_length_of_drop_eq hs)
      rw [hlength, ← List.range'_append, Nat.one_mul, ← Nat.add_assoc a pair.length 1,
        List.foldl_append, hpairStep,
        ih t'.length (by simp at hn; omega) t' _ kE' _ rfl (by omega) hrest,
        List.splitOnP_append_cons_of_forall_mem (by simpa using hpair) _ (by simp), List.foldl_cons]
    · -- the rest is the last pair
      have hno : ∀ c ∈ t, c ≠ ';' := fun c hc h => hsemi (h ▸ hc)
      obtain ⟨kE', hpairStep⟩ := foldl_pair ha (show s.drop a = t ++ [] by rw [hs, List.append_nil]) hno
        (Or.inl rfl)
      rw [hpairStep, List.splitOnP_eq_singleton (by simpa using hno)]
      rfl

end Scan

/-- `ParseCookies` reads the `Cookie` header as RFC 6265 reads a cookie-string: pairs split at
';', name and value split at the first '=', both stripped, one pair of quotes removed around
the value, pairs without a name dropped, and the first cookie of a name kept. -/
theorem parseCookies_eq_rfcCookies (cookie : String) : parseCookies cookie = rfcCookies cookie := by
  rw [parseCookies, rfcCookies_eq_foldl, List.range_eq_range']
  exact foldl_pairs _ cookie.toList 0 0 [] rfl (Nat.zero_le _) List.drop_zero

end Http

end Userver
