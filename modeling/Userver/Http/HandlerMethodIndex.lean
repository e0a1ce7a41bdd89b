import Userver.Lib.Codec

/-!
# Handlers and the method index of a path

A handler is configured with a path and a comma-separated list of methods (`HandlerConfig`);
`HttpHandlerBase` parses that list once, in `InitAllowedMethods`.  For every path it knows, the
routing keeps a `HandlerMethodIndex` (`handler_method_index.cpp`): an array indexed by method that
points at the handler serving that method.  `HandlerMethodIndex::AddHandler` registers each
method the handler allows, throws when a method is already served, and then lets HEAD fall back
to the handler of GET when no handler serves HEAD.

The arrays indexed by method are functions on `HttpMethod`.  Every method's index is at most
`kHandlerMethodsMax`, the index of `kUnknown`, so the bound checks of the source never fail.

`addHandler_eq_ok` says what a registration does and when it throws, and `Serves` is what every
index built by registrations keeps: a method is served only by a handler that allows it, or, for
HEAD, by one that allows GET.
-/

namespace Userver

namespace Http

/-- `HttpMethod`, in the order of its enumerators. -/
inductive HttpMethod where
  | kDelete
  | kGet
  | kHead
  | kPost
  | kPut
  | kPatch
  | kConnect
  | kOptions
  | kUnknown
  deriving DecidableEq, Repr

namespace HttpMethod

/-- `ToString(HttpMethod)`. -/
def toString : HttpMethod → String
  | kDelete => "DELETE"
  | kGet => "GET"
  | kHead => "HEAD"
  | kPost => "POST"
  | kPut => "PUT"
  | kConnect => "CONNECT"
  | kPatch => "PATCH"
  | kOptions => "OPTIONS"
  | kUnknown => "unknown"

/-- `HttpMethodFromString`.  The source switches on the first letters and then compares the
whole string with the name of one method; no branch yields `kUnknown`, which throws. -/
def fromString (methodStr : String) : Except String HttpMethod :=
  match [kDelete, kGet, kHead, kPost, kPut, kConnect, kPatch, kOptions].find?
      (fun method => method.toString = methodStr) with
  | some method => .ok method
  | none => .error ("can't parse HttpMethod from string '" ++ methodStr ++ "'")

end HttpMethod

open HttpMethod

/-- `kHandlerMethods`: the methods a handler may serve. -/
def kHandlerMethods : List HttpMethod := [kGet, kHead, kPost, kPut, kDelete, kPatch, kOptions, kUnknown]

/-- `IsHandlerMethod`. -/
def isHandlerMethod (method : HttpMethod) : Bool := decide (method ∈ kHandlerMethods)

/-- `UrlTrailingSlashOption`; its `kDefault` is `kBoth`. -/
inductive UrlTrailingSlashOption where
  | kBoth
  | kStrictMatch
  deriving DecidableEq, Repr

/-- The part of a `HandlerConfig` that routing reads: the handler's path, its `method` list and
`url_trailing_slash`. -/
structure HandlerConfig where
  path : String
  method : String
  urlTrailingSlash : UrlTrailingSlashOption := .kBoth
  deriving DecidableEq, Repr

/-- `InitAllowedMethods`: the `method` list split at every ',' (as `boost::split` does, which keeps
empty items), each item parsed and checked to be a handler method. -/
def initAllowedMethods (config : HandlerConfig) : Except String (List HttpMethod) :=
  ((config.method.toList.splitOnP (· = ',')).map String.ofList).mapM fun methodStr => do
    let method ← HttpMethod.fromString methodStr
    if !isHandlerMethod method then
      throw (methodStr ++ " is not supported in method list")
    pure method

/-- An `HttpHandlerBase` as routing sees it: its config and the methods its constructor parsed
from it, so that a handler whose method list does not parse cannot be built. -/
structure HttpHandler where
  config : HandlerConfig
  allowedMethods : List HttpMethod
  allowedMethods_eq : initAllowedMethods config = .ok allowedMethods

theorem HttpHandler.ext_config {h h' : HttpHandler} (hc : h.config = h'.config) : h = h' := by
  obtain ⟨c, ms, hms⟩ := h
  obtain ⟨c', ms', hms'⟩ := h'
  cases hc
  have hm : ms = ms' := by
    rw [hms] at hms'
    exact Except.ok.inj hms'
  cases hm
  rfl

instance : DecidableEq HttpHandler := fun h h' =>
  decidable_of_iff (h.config = h'.config) ⟨HttpHandler.ext_config, congrArg HttpHandler.config⟩

/-- `PathItem`: a segment of a path and its index. -/
structure PathItem where
  index : Nat
  name : String
  deriving DecidableEq, Repr

/-- `HandlerInfoData`: a handler, and the wildcards of the path it was registered under. -/
structure HandlerInfoData where
  handler : HttpHandler
  wildcards : List PathItem
  deriving DecidableEq

/-- `HandlerMethodIndex`: for each method, the handler data serving it (`pmethods_`). -/
structure HandlerMethodIndex where
  pmethods : HttpMethod → Option HandlerInfoData

namespace HandlerMethodIndex

/-- The index of a path no handler was added to. -/
def empty : HandlerMethodIndex := ⟨fun _ => none⟩

/-- `AddHandlerInfoData`: a method that is served already throws. -/
def addHandlerInfoData (idx : HandlerMethodIndex) (method : HttpMethod)
    (handlerInfoData : HandlerInfoData) : Except String HandlerMethodIndex :=
  match idx.pmethods method with
  | some old =>
    .error ("duplicate handler method+path: method=" ++ method.toString ++ " path1=" ++
      handlerInfoData.handler.config.path ++ " path2=" ++ old.handler.config.path)
  | none => .ok ⟨Function.update idx.pmethods method (some handlerInfoData)⟩

/-- The end of `AddHandler`: HEAD is served by the handler of GET when nothing serves it. -/
def headFallback (pmethods : HttpMethod → Option HandlerInfoData) :
    HttpMethod → Option HandlerInfoData :=
  match pmethods .kGet, pmethods .kHead with
  | some getMethod, none => Function.update pmethods .kHead (some getMethod)
  | _, _ => pmethods

/-- `AddHandler`: registers every allowed method, then lets HEAD fall back to GET. -/
def addHandler (idx : HandlerMethodIndex) (handler : HttpHandler) (wildcards : List PathItem) :
    Except String HandlerMethodIndex := do
  let handlerInfoData : HandlerInfoData := ⟨handler, wildcards⟩
  let idx ← handler.allowedMethods.foldlM
    (fun idx method => idx.addHandlerInfoData method handlerInfoData) idx
  pure ⟨headFallback idx.pmethods⟩

/-- `GetHandlerInfoData`. -/
def getHandlerInfoData (idx : HandlerMethodIndex) (method : HttpMethod) :
    Option HandlerInfoData :=
  idx.pmethods method

theorem addHandlerInfoData_eq_ok {idx idx' : HandlerMethodIndex} {method : HttpMethod}
    {d : HandlerInfoData} :
    idx.addHandlerInfoData method d = .ok idx' ↔
      idx.pmethods method = none ∧ idx' = ⟨Function.update idx.pmethods method (some d)⟩ := by
  unfold addHandlerInfoData
  cases hp : idx.pmethods method with
  | some old => simp
  | none =>
    constructor
    · rintro ⟨⟩
      exact ⟨rfl, rfl⟩
    · rintro ⟨-, rfl⟩
      rfl

/-- Registering a list of methods succeeds exactly when no method of it is served and none is
listed twice; it then serves each of them by `d`. -/
theorem foldlM_addHandlerInfoData_eq_ok (d : HandlerInfoData) :
    ∀ (methods : List HttpMethod) (idx idx' : HandlerMethodIndex),
      methods.foldlM (fun idx method => idx.addHandlerInfoData method d) idx = .ok idx' ↔
        methods.Nodup ∧ (∀ method ∈ methods, idx.pmethods method = none) ∧
          idx'.pmethods = fun method => if method ∈ methods then some d else idx.pmethods method
  | [], idx, idx' => by
    simp only [List.foldlM_nil, List.nodup_nil, List.not_mem_nil, if_false]
    constructor
    · rintro ⟨⟩
      simp
    · rintro ⟨-, -, h⟩
      cases idx'
      cases h
      rfl
  | method :: methods, idx, idx' => by
    rw [List.foldlM_cons, Codec.bind_eq_ok]
    simp only [addHandlerInfoData_eq_ok]
    constructor
    · rintro ⟨_, ⟨hfree, rfl⟩, hrest⟩
      obtain ⟨hnodup, hnone, hp⟩ := (foldlM_addHandlerInfoData_eq_ok d methods _ idx').1 hrest
      -- the first method is served after its registration, so the rest cannot list it
      have hnotin : method ∉ methods := fun hm => by simpa using hnone method hm
      refine ⟨List.nodup_cons.2 ⟨hnotin, hnodup⟩, ?_, ?_⟩
      · intro x hx
        rcases List.mem_cons.1 hx with rfl | hx
        · exact hfree
        · have hne : x ≠ method := fun h => hnotin (h ▸ hx)
          simpa [hne] using hnone x hx
      · funext x
        rw [hp]
        by_cases hx : x = method
        · subst hx
          simp [hnotin]
        · by_cases hxs : x ∈ methods <;> simp [hx, hxs]
    · rintro ⟨hnodup, hnone, hp⟩
      obtain ⟨hnotin, hnodup⟩ := List.nodup_cons.1 hnodup
      refine ⟨_, ⟨hnone method List.mem_cons_self, rfl⟩, ?_⟩
      rw [foldlM_addHandlerInfoData_eq_ok]
      refine ⟨hnodup, ?_, ?_⟩
      · intro x hx
        have hne : x ≠ method := fun h => hnotin (h ▸ hx)
        simpa [hne] using hnone x (List.mem_cons_of_mem _ hx)
      · funext x
        rw [hp]
        by_cases hx : x = method
        · subst hx
          simp [hnotin]
        · by_cases hxs : x ∈ methods <;> simp [hx, hxs]

/-- `AddHandler` succeeds exactly when the handler lists no method twice and serves no method
that is served already; HEAD then falls back to GET. -/
theorem addHandler_eq_ok {idx idx' : HandlerMethodIndex} {handler : HttpHandler}
    {wildcards : List PathItem} :
    idx.addHandler handler wildcards = .ok idx' ↔
      handler.allowedMethods.Nodup ∧
        (∀ method ∈ handler.allowedMethods, idx.pmethods method = none) ∧
          idx'.pmethods = headFallback fun method =>
            if method ∈ handler.allowedMethods then some ⟨handler, wildcards⟩
            else idx.pmethods method := by
  unfold addHandler
  rw [Codec.bind_eq_ok]
  constructor
  · rintro ⟨mid, hmid, hend⟩
    obtain ⟨hnodup, hnone, hp⟩ := (foldlM_addHandlerInfoData_eq_ok _ _ _ _).1 hmid
    cases hend
    exact ⟨hnodup, hnone, by rw [hp]⟩
  · rintro ⟨hnodup, hnone, hp⟩
    refine ⟨⟨fun method => if method ∈ handler.allowedMethods then some ⟨handler, wildcards⟩
      else idx.pmethods method⟩, (foldlM_addHandlerInfoData_eq_ok _ _ _ _).2 ⟨hnodup, hnone, rfl⟩, ?_⟩
    cases idx'
    cases hp
    rfl

/-- Every method is served by a handler that allows it, or, for HEAD, by one that allows GET. -/
def Serves (idx : HandlerMethodIndex) : Prop :=
  ∀ method d, idx.pmethods method = some d →
    method ∈ d.handler.allowedMethods ∨ (method = .kHead ∧ .kGet ∈ d.handler.allowedMethods)

theorem serves_headFallback {pmethods : HttpMethod → Option HandlerInfoData}
    (hs : Serves ⟨pmethods⟩) : Serves ⟨headFallback pmethods⟩ := by
  unfold headFallback
  split
  · rename_i getMethod hget _
    intro method d hd
    by_cases hm : method = .kHead
    · subst hm
      simp only [Function.update_self, Option.some.injEq] at hd
      subst hd
      -- the handler of GET allows GET, since GET is not HEAD
      rcases hs .kGet getMethod hget with h | ⟨h, -⟩
      · exact .inr ⟨rfl, h⟩
      · cases h
    · simp only [ne_eq, hm, not_false_eq_true, Function.update_of_ne] at hd
      exact hs method d hd
  · exact hs

/-- What `Serves` says is kept by every registration. -/
theorem Serves.addHandler {idx idx' : HandlerMethodIndex} {handler : HttpHandler}
    {wildcards : List PathItem} (hs : idx.Serves)
    (h : idx.addHandler handler wildcards = .ok idx') : idx'.Serves := by
  obtain ⟨-, -, hp⟩ := addHandler_eq_ok.1 h
  have hreg : Serves ⟨fun method =>
      if method ∈ handler.allowedMethods then some ⟨handler, wildcards⟩
      else idx.pmethods method⟩ := by
    intro method d hd
    by_cases hm : method ∈ handler.allowedMethods
    · simp only [hm, if_true, Option.some.injEq] at hd
      subst hd
      exact .inl hm
    · simp only [hm, if_false] at hd
      exact hs method d hd
  have := serves_headFallback hreg
  cases idx'
  cases hp
  exact this

end HandlerMethodIndex

end Http

end Userver
