import Userver.Http.HandlerMethodIndex
import Userver.Lib.KeyMap

/-!
# Routing a request to a handler

`HandlerInfoIndex` (`handler_info_index.cpp`) keeps the handlers of the server in two indices.
A path with no wildcard and no trailing '*' goes to the `FixedPathIndex`, a hash map from the
path to its `HandlerMethodIndex`; any other path goes to the `WildcardPathIndex`
(`wildcard_path_index.cpp`), a trie whose edges are the fixed segments of the paths, keyed by
their index in the path and their text, and whose nodes keep a `HandlerMethodIndex` for each
length of path ending there.  With `url_trailing_slash` set to `both` (the default) a handler is
registered under its path with and without the trailing '/'.

`MatchRequest` looks the request's path up in the fixed index first and searches the trie only
when that fails: depth first over the fixed segments the path has, then a path of exactly the
request's length at the node, then a '*' child of the node, which takes the longest registered
path not longer than the request's.

A `std::map` keyed by segment index or by length is a list indexed by position (`PosMap`); a
`std::map` or hash map only looked up by key is an association list (`KeyMap`).

`addHandler_head_after_get_throws`: registration depends on its order.  A HEAD handler added
after a GET handler of the same path throws, since the GET handler already serves HEAD by the
fallback of `HandlerMethodIndex::AddHandler`, while the other order succeeds.
-/

namespace Userver

namespace Http

/-- `MatchRequestResult::Status`. -/
inductive MatchRequestResult.Status where
  | kHandlerNotFound
  | kMethodNotAllowed
  | kOk
  deriving DecidableEq, Repr

/-- `MatchRequestResult`: the handler found, the length of the path it matched, the status and
the segments bound to the wildcards of its path. -/
structure MatchRequestResult where
  handlerInfo : Option HttpHandler := none
  matchedPathLength : Nat := 0
  status : MatchRequestResult.Status := .kHandlerNotFound
  argsFromPath : List (String × String) := []
  deriving DecidableEq

/-- `SplitBySlash`: `boost::split` at every '/', which keeps the empty segments. -/
def splitBySlash (path : String) : List String :=
  (path.toList.splitOnP (· = '/')).map String.ofList

/-- `HasWildcardSpecificSymbols`: the path has a '{' or a '}' (written by their codes). -/
def hasWildcardSpecificSymbols (path : String) : Bool :=
  path.toList.any fun c => c == '\x7b' || c == '\x7d'

/-- `kAnySuffixMark`. -/
def kAnySuffixMark : String := "*"

/-- `FixedPathIndex`: the method index of each path. -/
structure FixedPathIndex where
  handlerMethodIndexMap : List (String × HandlerMethodIndex) := []

namespace FixedPathIndex

/-- `AddHandler(path, handler)`. -/
def addHandlerWithPath (idx : FixedPathIndex) (path : String) (handler : HttpHandler) :
    Except String FixedPathIndex :=
  (⟨·⟩) <$> KeyMap.alterM path HandlerMethodIndex.empty (·.addHandler handler [])
    idx.handlerMethodIndexMap

/-- `AddHandler(handler)`: the handler's path, and with `url_trailing_slash: both` the same path
with the trailing '/' removed or added. -/
def addHandler (idx : FixedPathIndex) (handler : HttpHandler) : Except String FixedPathIndex := do
  let path := handler.config.path
  let cs := path.toList
  let idx ← idx.addHandlerWithPath path handler
  if handler.config.urlTrailingSlash = .kBoth ∧ cs ≠ [] then
    if cs.getLast? = some '/' then
      if cs.length > 1 then
        if cs.dropLast.getLast? = some '/' then
          throw "can't use 'url_trailing_slash' option with path ends with '//'"
        idx.addHandlerWithPath (String.ofList cs.dropLast) handler
      else pure idx
    else idx.addHandlerWithPath (path ++ "/") handler
  else pure idx

/-- `MatchRequest`: whether the path is known, and the result it leaves. -/
def matchRequest (idx : FixedPathIndex) (method : HttpMethod) (path : String)
    (matchResult : MatchRequestResult) : Bool × MatchRequestResult :=
  match KeyMap.find? path idx.handlerMethodIndexMap with
  | none => (false, matchResult)
  | some handlerMethodIndex =>
    match handlerMethodIndex.getHandlerInfoData method with
    | none => (false, { matchResult with status := .kMethodNotAllowed })
    | some handlerInfoData =>
      (true, { matchResult with
        handlerInfo := some handlerInfoData.handler
        matchedPathLength := path.length
        status := .kOk })

end FixedPathIndex

/-- `WildcardPathIndex::Node`: the children of the node, by the index of the fixed segment
leading to them (position in `next`) and its text, and the method index of each length of path
ending at the node (position in `handlerMethodIndexMap`). -/
inductive Node where
  | mk (next : List (List (String × Node)))
      (handlerMethodIndexMap : List (Option HandlerMethodIndex))

namespace Node

/-- A node with no child and no path. -/
def empty : Node := .mk [] []

/-- The method indices of the paths ending at the node. -/
def handlerMethodIndexMap : Node → List (Option HandlerMethodIndex)
  | .mk _ handlerMethodIndexMap => handlerMethodIndexMap

end Node

/-- `GetFromHandlerMethodIndex`: the method index of the path of the request's length, or with
`limitPathLength` false of the longest path not longer than the request's; the handler of the
method binds each wildcard to the request's segment at its index. -/
def getFromHandlerMethodIndex (handlerMethodIndexMap : List (Option HandlerMethodIndex))
    (method : HttpMethod) (path : List String) (matchResult : MatchRequestResult)
    (limitPathLength : Bool) : Except String (Bool × MatchRequestResult) :=
  let entry :=
    if limitPathLength then handlerMethodIndexMap.getD path.length none
    else ((handlerMethodIndexMap.take (path.length + 1)).reverse.findSome? id)
  match entry with
  | none => pure (false, matchResult)
  | some handlerMethodIndex =>
    match handlerMethodIndex.getHandlerInfoData method with
    | none => pure (false, { matchResult with status := .kMethodNotAllowed })
    | some handlerInfoData => do
      let args ← handlerInfoData.wildcards.mapM fun arg =>
        if arg.index > path.length then
          throw "matched path from handler has length greater than path from request"
        else pure (arg.name, if arg.index = path.length then "" else path.getD arg.index "")
      pure (true, { matchResult with
        handlerInfo := some handlerInfoData.handler
        argsFromPath := matchResult.argsFromPath ++ args
        status := .kOk })

/-- The check of `"/some/.../path/*"` in `MatchRequest`: the children at the indices below the
request's length, from the highest index down, are searched for a '*' child. -/
def matchAnySuffix (method : HttpMethod) (path : List String) :
    List (List (String × Node) × Nat) → MatchRequestResult →
      Except String (Bool × MatchRequestResult)
  | [], matchResult => pure (false, matchResult)
  | (children, asteriskPos) :: rest, matchResult =>
    match KeyMap.find? kAnySuffixMark children with
    | none => matchAnySuffix method path rest matchResult
    | some child => do
      let (found, matchResult) ←
        getFromHandlerMethodIndex child.handlerMethodIndexMap method path matchResult false
      if found then
        pure (true, { matchResult with
          matchedPathLength := asteriskPos + ((path.take asteriskPos).map String.length).sum
          argsFromPath := matchResult.argsFromPath ++ (path.drop asteriskPos).map ("", ·) })
      else matchAnySuffix method path rest matchResult

mutual

/-- `WildcardPathIndex::MatchRequest` at a node. -/
def Node.matchRequest (method : HttpMethod) (path : List String) (pathStringLength : Nat) :
    Node → MatchRequestResult → Except String (Bool × MatchRequestResult)
  | .mk next handlerMethodIndexMap, matchResult => do
    let (found, matchResult) ← Node.matchNext method path pathStringLength next 0 matchResult
    if found then return (true, matchResult)
    -- check for match without '*'
    let (found, matchResult) ←
      getFromHandlerMethodIndex handlerMethodIndexMap method path matchResult true
    if found then return (true, { matchResult with matchedPathLength := pathStringLength })
    matchAnySuffix method path (next.take path.length).zipIdx.reverse matchResult

/-- The loop of `MatchRequest` over the children of a node, in order of index, until the index
reaches the request's length. -/
def Node.matchNext (method : HttpMethod) (path : List String) (pathStringLength : Nat) :
    List (List (String × Node)) → Nat → MatchRequestResult →
      Except String (Bool × MatchRequestResult)
  | [], _, matchResult => pure (false, matchResult)
  | children :: rest, index, matchResult =>
    if path.length ≤ index then pure (false, matchResult)
    else do
      let (found, matchResult) ← Node.matchChild method path pathStringLength
        (path.getD index "") children matchResult
      if found then pure (true, matchResult)
      else Node.matchNext method path pathStringLength rest (index + 1) matchResult

/-- The child whose fixed segment is the request's segment, searched in turn. -/
def Node.matchChild (method : HttpMethod) (path : List String) (pathStringLength : Nat)
    (segment : String) : List (String × Node) → MatchRequestResult →
      Except String (Bool × MatchRequestResult)
  | [], matchResult => pure (false, matchResult)
  | (name, child) :: rest, matchResult =>
    if name = segment then child.matchRequest method path pathStringLength matchResult
    else Node.matchChild method path pathStringLength segment rest matchResult

end

/-- The walk of `AddPath`: down the fixed items, creating the nodes that are missing, then the
handler added to the method index of the path's length at the last node. -/
def Node.addPath (handler : HttpHandler) (wildcards : List PathItem) (length : Nat) :
    Node → List PathItem → Except String Node
  | .mk next handlerMethodIndexMap, [] => do
    let handlerMethodIndexMap ← PosMap.alterM none
      (fun entry => some <$> (entry.getD .empty).addHandler handler wildcards)
      handlerMethodIndexMap length
    pure (.mk next handlerMethodIndexMap)
  | .mk next handlerMethodIndexMap, pathItem :: fixedPath => do
    let next ← PosMap.alterM []
      (KeyMap.alterM pathItem.name Node.empty (fun child =>
        child.addPath handler wildcards length fixedPath))
      next pathItem.index
    pure (.mk next handlerMethodIndexMap)

/-- `ExtractWildcardName`: the text between the braces of a wildcard segment. -/
def extractWildcardName (str : String) : Except String String :=
  let cs := str.toList
  if cs = [] ∨ cs.head? ≠ some '\x7b' ∨ cs.getLast? ≠ some '\x7d' then
    .error ("Incorrect wildcard '" ++ str ++ "'")
  else .ok (String.ofList (cs.drop 1).dropLast)

/-- `ExtractWildcardPathItem`, with the names of the wildcards met so far. -/
def extractWildcardPathItem (index : Nat) (pathElem : String) (wildcardNames : List String) :
    Except String (PathItem × List String) := do
  let wildcardName ← extractWildcardName pathElem
  if wildcardName = "" then pure (⟨index, wildcardName⟩, wildcardNames)
  else if wildcardName ∈ wildcardNames then
    throw ("duplicate wildcard name: '" ++ wildcardName ++ "'")
  else pure (⟨index, wildcardName⟩, wildcardName :: wildcardNames)

/-- One turn of the loop of `AddHandler(path, handler)` over the segments of the path: the fixed
items, the wildcards and the names of the wildcards so far. -/
def extractPathItem (items : List PathItem × List PathItem × List String)
    (segment : String × Nat) : Except String (List PathItem × List PathItem × List String) :=
  let (pathFixedItems, pathWildcards, wildcardNames) := items
  let (pathElem, i) := segment
  if !hasWildcardSpecificSymbols pathElem then
    pure (pathFixedItems ++ [⟨i, pathElem⟩], pathWildcards, wildcardNames)
  else do
    let (wildcard, wildcardNames) ← extractWildcardPathItem i pathElem wildcardNames
    pure (pathFixedItems, pathWildcards ++ [wildcard], wildcardNames)

/-- `WildcardPathIndex`: the root of the trie. -/
structure WildcardPathIndex where
  root : Node := .empty

namespace WildcardPathIndex

/-- `AddHandler(path, handler)`, with `AddPath`. -/
def addHandlerWithPath (idx : WildcardPathIndex) (path : String) (handler : HttpHandler) :
    Except String WildcardPathIndex := do
  let (pathFixedItems, pathWildcards, _) ←
    ((splitBySlash path).zipIdx.foldlM extractPathItem ([], [], [])).mapError
      fun ex => "Failed to process handler path '" ++ path ++ "': " ++ ex
  let root ← idx.root.addPath handler pathWildcards
    (pathFixedItems.length + pathWildcards.length) pathFixedItems
  pure ⟨root⟩

/-- `AddHandler(handler)`: as the fixed index does, and a path ending with "/*" is registered
without it too. -/
def addHandler (idx : WildcardPathIndex) (handler : HttpHandler) :
    Except String WildcardPathIndex := do
  let path := handler.config.path
  let cs := path.toList
  let idx ← idx.addHandlerWithPath path handler
  if handler.config.urlTrailingSlash = .kBoth ∧ cs ≠ [] then
    if cs.getLast? = some '/' then
      if cs.length > 1 then
        if cs.dropLast.getLast? = some '/' then
          throw "can't use 'url_trailing_slash' option with path ends with '//'"
        idx.addHandlerWithPath (String.ofList cs.dropLast) handler
      else pure idx
    else if cs.getLast? = some '*' then
      if cs.length > 1 ∧ cs.dropLast.getLast? = some '/' then
        -- ends with '/*' but not with '//*'
        if cs.length > 2 ∧ cs.dropLast.dropLast.getLast? = some '/' then
          throw "can't use 'url_trailing_slash' option with path ends with '//*'"
        idx.addHandlerWithPath (String.ofList cs.dropLast.dropLast) handler
      else throw ("incorrect path: '" ++ path ++ "': trailing '*' allowed after '/' only")
    else idx.addHandlerWithPath (path ++ "/") handler
  else pure idx

/-- `MatchRequest`. -/
def matchRequest (idx : WildcardPathIndex) (method : HttpMethod) (path : String)
    (matchResult : MatchRequestResult) : Except String (Bool × MatchRequestResult) :=
  idx.root.matchRequest method (splitBySlash path) path.length matchResult

end WildcardPathIndex

/-- `HandlerInfoIndexImpl`, without the fallback handlers. -/
structure HandlerInfoIndex where
  fixedPathIndex : FixedPathIndex := {}
  wildcardPathIndex : WildcardPathIndex := {}
  handlerList : List HttpHandler := []

namespace HandlerInfoIndex

/-- An index no handler was added to. -/
def empty : HandlerInfoIndex := {}

/-- `AddHandler`: a path with no wildcard and no trailing '*' goes to the fixed index. -/
def addHandler (idx : HandlerInfoIndex) (handler : HttpHandler) :
    Except String HandlerInfoIndex := do
  let path := handler.config.path
  let idx ← (if !hasWildcardSpecificSymbols path ∧
        (path.toList = [] ∨ path.toList.getLast? ≠ some '*') then
      (fun fixedPathIndex => { idx with fixedPathIndex }) <$>
        idx.fixedPathIndex.addHandler handler
    else
      (fun wildcardPathIndex => { idx with wildcardPathIndex }) <$>
        idx.wildcardPathIndex.addHandler handler : Except String HandlerInfoIndex)
  pure { idx with handlerList := idx.handlerList ++ [handler] }

/-- `MatchRequest`: the fixed index first, then the trie. -/
def matchRequest (idx : HandlerInfoIndex) (method : HttpMethod) (path : String) :
    Except String MatchRequestResult := do
  let (found, matchResult) := idx.fixedPathIndex.matchRequest method path {}
  if found then return matchResult
  let (_, matchResult) ← idx.wildcardPathIndex.matchRequest method path matchResult
  pure matchResult

/-- A handler of GET on "/x". -/
def getOnX : HttpHandler := ⟨{ path := "/x", method := "GET" }, [.kGet], rfl⟩

/-- A handler of HEAD on "/x". -/
def headOnX : HttpHandler := ⟨{ path := "/x", method := "HEAD" }, [.kHead], rfl⟩

/-- No method is allowed by both handlers, yet adding the HEAD handler after the GET handler
throws, while adding them the other way round succeeds. -/
theorem addHandler_head_after_get_throws :
    getOnX.config.path = headOnX.config.path ∧
      getOnX.allowedMethods = [.kGet] ∧ headOnX.allowedMethods = [.kHead] ∧
      (empty.addHandler getOnX >>= (·.addHandler headOnX)) =
        .error "duplicate handler method+path: method=HEAD path1=/x path2=/x" ∧
      ∃ idx, (empty.addHandler headOnX >>= (·.addHandler getOnX)) = .ok idx :=
  ⟨rfl, rfl, rfl, rfl, _, rfl⟩

end HandlerInfoIndex

end Http

end Userver
