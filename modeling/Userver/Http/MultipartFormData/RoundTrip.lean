import Userver.Http.MultipartFormData.Encoded

/-!
# Reading back the bodies a form encoder writes

* `formDataBody_round_trip`: with a non-empty boundary of token characters and at least one
  readable part, the parser accepts the body an encoder writes, and every name but `_charset_`
  gets its parts, in order, with their values, filenames and content types;
* `nonToken_boundary_rejected`: an unquoted boundary with a `bchar` of RFC 2046 that is no token
  character, such as `/`, is rejected with the `Content-Type`, whatever the body.
-/

namespace Userver

namespace Http

namespace Multipart

open CType

/-! ## Reading a whole body back

The parts loop over the parts (`run_partsStep_encode`), after the first delimiter and with the
boundary the `Content-Type` gives, reads the body `formDataBody` writes.  The boundary is read as
a token when it is not quoted, so a boundary with a `bchar` of RFC 2046 that is no token
character, such as `/`, is rejected with the `Content-Type` (`nonToken_boundary_rejected`).
-/

theorem append_intercalate {α : Type} (sep : List α) :
    ∀ {xs : List (List α)}, xs ≠ [] → sep ++ sep.intercalate xs = xs.flatMap (sep ++ ·)
  | [], h => absurd rfl h
  | [x], _ => by simp
  | x :: y :: ys, _ => by
    rw [List.intercalate_cons_cons, List.flatMap_cons, ← append_intercalate sep (List.cons_ne_nil y ys)]
    simp only [List.append_assoc]

theorem formDataBody_eq {boundary : List UInt8} {parts : List FormDataPart} (hparts : parts ≠ []) :
    formDataBody boundary parts = ascii "--" ++ boundary ++
      ((parts.flatMap fun p => kCrLf ++ p.encode boundary) ++ ascii "--" ++ kCrLf) := by
  have hmap : parts.map (FormDataPart.encode boundary) ≠ [] := by simpa using hparts
  rw [formDataBody, List.append_assoc (ascii "--" ++ boundary), append_intercalate kCrLf hmap,
    List.flatMap_map]
  simp only [List.append_assoc]

/-- `ParseMultipartFormDataBody` reads every part of a body an encoder writes. -/
theorem parseMultipartFormDataBody_formDataBody {boundary : List UInt8}
    (hb : ∀ c ∈ boundary, isTokenChar c) {parts : List FormDataPart} (hparts : parts ≠ [])
    (hreadable : ∀ p ∈ parts, p.Readable boundary) (args : FormDataArgs) :
    parseMultipartFormDataBody (formDataBody boundary parts) boundary [] args true =
      some (setDefaultCharset (parts.foldl addPart (none, args)).1
        (parts.foldl addPart (none, args)).2) := by
  rw [formDataBody_eq hparts]
  set text := (parts.flatMap fun p => kCrLf ++ p.encode boundary) ++ ascii "--" ++ kCrLf
  have hdash : ascii "--" = [45, 45] := rfl
  have hstart : boundary.length + 2 ≤ (ascii "--" ++ boundary ++ text).length ∧
      (ascii "--" ++ boundary ++ text).take 2 = [45, 45] ∧
      ((ascii "--" ++ boundary ++ text).drop 2).take boundary.length = boundary := by
    simp [hdash]
  have hrest : (ascii "--" ++ boundary ++ text).drop (2 + boundary.length) = text := by
    have hlen : (ascii "--" ++ boundary).length = 2 + boundary.length := by
      rw [hdash, List.length_append]
      rfl
    rw [List.drop_left' hlen]
  have hspaces : skipOptionalSpaces text = text :=
    skipOptionalSpaces_of_head (head?_partsText boundary parts)
  unfold parseMultipartFormDataBody
  rw [if_pos hstart]
  simp only [Option.pure_def, Option.bind_eq_bind, Option.bind_some, if_true, hrest, hspaces,
    List.isEmpty_nil]
  exact run_partsStep_encode hb parts hreadable _ _ (Nat.lt_succ_self _)

/-- The parameter reader after `; name=`: the value, and the rest after optional spaces. -/
theorem parseParam_cons_name {name v : List UInt8} (hname : ∀ c ∈ name, isTokenChar c)
    (hne : name ≠ []) :
    parseParam (59 :: 32 :: (name ++ 61 :: v)) =
      (parseHeaderParamValue v).map fun r => ((name, r.1), skipOptionalSpaces r.2) := by
  obtain ⟨c, name', rfl⟩ := List.exists_cons_of_ne_nil hne
  have hc : isWsp c = false := isWsp_of_isTokenChar (hname c List.mem_cons_self)
  have hspaces : skipOptionalSpaces (c :: name' ++ 61 :: v) = c :: name' ++ 61 :: v :=
    skipOptionalSpaces_of_head (by intro d hd; cases hd; exact hc)
  have htoken : readToken (c :: name' ++ 61 :: v) = (c :: name', 61 :: v) :=
    readToken_append hname (by intro d hd; cases hd; decide)
  have hequals : skipOptionalSpaces (61 :: v) = 61 :: v :=
    skipOptionalSpaces_of_head (by intro d hd; cases hd; decide)
  rw [parseParam, skipSymbol_eq_some.2 rfl]
  simp only [Option.bind_eq_bind, Option.bind_some]
  rw [skipOptionalSpaces_cons_space, hspaces, htoken]
  dsimp only
  rw [if_neg (by simp), hequals, skipSymbol_eq_some.2 rfl]
  simp only [Option.bind_some]
  cases parseHeaderParamValue v <;> rfl

theorem parseHeaderParamValue_token {value rest : List UInt8} (hvalue : ∀ c ∈ value, isTokenChar c)
    (hne : value ≠ []) (hrest : ∀ c, rest.head? = some c → isTokenChar c = false) :
    parseHeaderParamValue (value ++ rest) = some (value, rest) := by
  obtain ⟨c, value', rfl⟩ := List.exists_cons_of_ne_nil hne
  have hc := hvalue c List.mem_cons_self
  have hspaces : skipOptionalSpaces (c :: value' ++ rest) = c :: value' ++ rest :=
    skipOptionalSpaces_of_head (by intro d hd; cases hd; exact isWsp_of_isTokenChar hc)
  have hquote : c ≠ 34 := by
    rintro rfl
    exact absurd hc (by decide)
  unfold parseHeaderParamValue
  dsimp only
  rw [hspaces, if_neg (by simpa using hquote), readToken_append hvalue hrest]
  rfl

theorem isMultipartFormDataContentType_of_semicolon (rest : List UInt8) :
    isMultipartFormDataContentType (kMultipartFormData ++ 59 :: rest) = true := by
  unfold isMultipartFormDataContentType
  rw [List.take_left' rfl, iEquals_self, Bool.true_and, List.getD_append_right _ _ _ _ le_rfl,
    Nat.sub_self]
  simp

theorem tokenChars_boundary : ∀ c ∈ ascii "boundary", isTokenChar c :=
  List.all_eq_true.1 (by decide)


/-- The `Content-Type` value `multipart/form-data; boundary=...`, cut where the parser reads it:
the media type, `"; "`, the parameter name and `'='`. -/
theorem ascii_multipartBoundary (value : List UInt8) :
    ascii "multipart/form-data; boundary=" ++ value =
      kMultipartFormData ++ 59 :: 32 :: (ascii "boundary" ++ 61 :: value) := by
  rw [show ascii "multipart/form-data; boundary=" =
    kMultipartFormData ++ [59, 32] ++ ascii "boundary" ++ [61] from rfl]
  simp only [List.append_assoc, List.cons_append, List.nil_append]

/-- `ParseMultipartFormData` of a `multipart/form-data;` content type: its parameters, then the
body with the last `boundary` and `charset`. -/
theorem parseMultipartFormData_of_semicolon (rest body : List UInt8) (args : FormDataArgs)
    (strictCrLf : Bool) :
    parseMultipartFormData (kMultipartFormData ++ 59 :: rest) body args strictCrLf =
      (parseParams (59 :: rest)).bind fun params =>
        if (lastParam (ascii "boundary") [] params).isEmpty then none
        else parseMultipartFormDataBody body (lastParam (ascii "boundary") [] params)
          (lastParam (ascii "charset") [] params) args strictCrLf := by
  have hspaces : skipOptionalSpaces (59 :: rest) = 59 :: rest :=
    skipOptionalSpaces_of_head (by intro c hc; cases hc; rfl)
  unfold parseMultipartFormData
  rw [isMultipartFormDataContentType_of_semicolon, Bool.not_true, if_neg Bool.false_ne_true,
    List.drop_left' rfl, hspaces]
  rfl

theorem parseParams_boundary {boundary : List UInt8} (hb : boundary ≠ [])
    (htoken : ∀ c ∈ boundary, isTokenChar c) :
    parseParams (59 :: 32 :: (ascii "boundary" ++ 61 :: boundary)) =
      some [(ascii "boundary", boundary)] := by
  have hvalue : parseHeaderParamValue boundary = some (boundary, []) := by
    simpa using @parseHeaderParamValue_token boundary [] htoken hb (by intro c hc; cases hc)
  have hparam : parseParam (59 :: 32 :: (ascii "boundary" ++ 61 :: boundary)) =
      some ((ascii "boundary", boundary), []) := by
    rw [parseParam_cons_name tokenChars_boundary (by simp [ascii]), hvalue]
    rfl
  have hstep : paramsStep ([], 59 :: 32 :: (ascii "boundary" ++ 61 :: boundary)) =
      .inr ([(ascii "boundary", boundary)], []) := by
    rw [paramsStep, if_neg (by simp), hparam]
    rfl
  unfold parseParams
  rw [Loop.run_of_inr paramsStep_decreasing hstep (by simp), Loop.run_of_inl (by rfl)]

theorem lastParam_boundary (boundary : List UInt8) :
    lastParam (ascii "boundary") [] [(ascii "boundary", boundary)] = boundary ∧
      lastParam (ascii "charset") [] [(ascii "boundary", boundary)] = [] := by
  have hlen : (ascii "boundary").length ≠ (ascii "charset").length := by
    rw [show (ascii "boundary").length = 8 from rfl, show (ascii "charset").length = 7 from rfl]
    decide
  have hne : iEquals (ascii "boundary") (ascii "charset") = false := iEquals_of_length_ne hlen
  constructor
  · rw [lastParam, List.foldl_cons, List.foldl_nil, if_pos (iEquals_self _)]
  · rw [lastParam, List.foldl_cons, List.foldl_nil, hne, if_neg Bool.false_ne_true]

/-- `ParseMultipartFormData` reads a body an encoder writes for a non-empty token boundary: the
parts in order, and the value of a `_charset_` part as the default charset. -/
theorem parseMultipartFormData_formDataBody {boundary : List UInt8} (hb : boundary ≠ [])
    (htoken : ∀ c ∈ boundary, isTokenChar c) {parts : List FormDataPart} (hparts : parts ≠ [])
    (hreadable : ∀ p ∈ parts, p.Readable boundary) (args : FormDataArgs) :
    parseMultipartFormData (ascii "multipart/form-data; boundary=" ++ boundary)
        (formDataBody boundary parts) args true =
      some (setDefaultCharset (parts.foldl addPart (none, args)).1
        (parts.foldl addPart (none, args)).2) := by
  obtain ⟨hboundary, hcharset⟩ := lastParam_boundary boundary
  rw [ascii_multipartBoundary, parseMultipartFormData_of_semicolon,
    parseParams_boundary hb htoken, Option.bind_some, hboundary, hcharset,
    if_neg (by simpa using hb)]
  exact parseMultipartFormDataBody_formDataBody htoken hparts hreadable args

/-- Setting the default charset changes no value, filename or content type. -/
theorem find?_setDefaultCharset (name : List UInt8) (charset : Option (List UInt8))
    (args : FormDataArgs) :
    ((KeyMap.find? name (setDefaultCharset charset args)).getD []).map
        (fun a => (a.value, a.filename, a.contentType)) =
      ((KeyMap.find? name args).getD []).map (fun a => (a.value, a.filename, a.contentType)) := by
  cases charset with
  | none => rfl
  | some charset =>
    induction args with
    | nil => rfl
    | cons e args ih =>
      obtain ⟨k, v⟩ := e
      simp only [setDefaultCharset, List.map_cons, KeyMap.find?] at ih ⊢
      split
      · simp
      · exact ih

/-- What the parts add under a name other than `_charset_`: each part of that name, in order. -/
theorem find?_foldl_addPart {name : List UInt8} (hname : name ≠ ascii "_charset_")
    (parts : List FormDataPart) (s : Option (List UInt8) × FormDataArgs) :
    (KeyMap.find? name (parts.foldl addPart s).2).getD [] =
      (KeyMap.find? name s.2).getD [] ++
        (parts.filter fun p => p.name = name).map FormDataPart.toArg := by
  induction parts generalizing s with
  | nil => simp
  | cons p parts ih =>
    rw [List.foldl_cons, ih]
    unfold addPart
    split
    next hcharset =>
      -- the `_charset_` part is no argument, and not of this name
      have hp : p.name ≠ name := fun h => hname (h ▸ hcharset)
      simp [hp]
    next =>
      unfold pushArg
      rw [KeyMap.find?_insert]
      by_cases hp : p.name = name
      · subst hp
        simp
      · simp [hp]

/-- A form written by an encoder is read back: with a non-empty boundary of token characters and
at least one readable part, the parser accepts the body, and under every name but `_charset_` it
appends that name's parts, in order, with their values, filenames and content types. -/
theorem formDataBody_round_trip {boundary : List UInt8} (hb : boundary ≠ [])
    (htoken : ∀ c ∈ boundary, isTokenChar c) {parts : List FormDataPart} (hparts : parts ≠ [])
    (hreadable : ∀ p ∈ parts, p.Readable boundary) (args : FormDataArgs) :
    ∃ result, parseMultipartFormData (ascii "multipart/form-data; boundary=" ++ boundary)
        (formDataBody boundary parts) args true = some result ∧
      ∀ name, name ≠ ascii "_charset_" →
        ((KeyMap.find? name result).getD []).map (fun a => (a.value, a.filename, a.contentType)) =
          ((KeyMap.find? name args).getD []).map (fun a => (a.value, a.filename, a.contentType)) ++
            (parts.filter fun p => p.name = name).map fun p => (p.value, p.filename, p.contentType) := by
  refine ⟨_, parseMultipartFormData_formDataBody hb htoken hparts hreadable args, ?_⟩
  intro name hname
  rw [find?_setDefaultCharset, find?_foldl_addPart hname, List.map_append, List.map_map]
  rfl

set_option maxRecDepth 4096 in
theorem formDataBody_round_trip_one_part : ∃ result, parseMultipartFormData
      (ascii "multipart/form-data; boundary=" ++ ascii "XyZ")
      (formDataBody (ascii "XyZ") [⟨ascii "a", some (ascii "f"), some (ascii "t"), ascii "1"⟩])
      [] true = some result ∧
    ∀ name, name ≠ ascii "_charset_" →
      ((KeyMap.find? name result).getD []).map (fun a => (a.value, a.filename, a.contentType)) =
        ((KeyMap.find? name ([] : FormDataArgs)).getD []).map
            (fun a => (a.value, a.filename, a.contentType)) ++
          (([⟨ascii "a", some (ascii "f"), some (ascii "t"), ascii "1"⟩] : List FormDataPart).filter
            fun p => p.name = name).map fun p => (p.value, p.filename, p.contentType) :=
  @formDataBody_round_trip (ascii "XyZ") (by decide) (by decide)
    [⟨ascii "a", some (ascii "f"), some (ascii "t"), ascii "1"⟩] (by decide)
    (fun p hp => by
      rw [List.mem_singleton.1 hp]
      exact ⟨by decide, by decide, fun _ hf => by cases hf; decide,
        fun _ hf => by cases hf; exact ⟨by decide, by decide⟩, by decide⟩) []

/-- The bytes of RFC 2046 `bchars` that are not RFC 7230 `tchar`s, spaces apart. -/
theorem nonToken_bchar {c : UInt8} (hc : c ∈ ascii "(),/:=?") :
    isTokenChar c = false ∧ isWsp c = false ∧ c ≠ 34 ∧ c ≠ 59 := by
  rw [show ascii "(),/:=?" = [40, 41, 44, 47, 58, 61, 63] from rfl] at hc
  simp only [List.mem_cons, List.not_mem_nil, or_false] at hc
  rcases hc with rfl | rfl | rfl | rfl | rfl | rfl | rfl <;> decide

theorem parseParam_of_head_ne {c : UInt8} (hc : c ≠ 59) (rest : List UInt8) :
    parseParam (c :: rest) = none := by
  simp [parseParam, skipSymbol, hc]

/-- An unquoted boundary with a `bchar` that is no token character ends the parameter's token
there, and the parameter loop then finds no `;`: the `Content-Type` is rejected. -/
theorem parseParams_nonToken_boundary {pre post : List UInt8} {c : UInt8}
    (hpre : ∀ d ∈ pre, isTokenChar d) (hc : c ∈ ascii "(),/:=?") :
    parseParams (59 :: 32 :: (ascii "boundary" ++ 61 :: (pre ++ c :: post))) = none := by
  obtain ⟨htok, hwsp, hquote, hsemi⟩ := nonToken_bchar hc
  unfold parseParams
  cases pre with
  | nil =>
    -- no token before `c`: the value is missing
    have hvalue : parseHeaderParamValue (c :: post) = none := by
      have hspaces : skipOptionalSpaces (c :: post) = c :: post :=
        skipOptionalSpaces_of_head (by intro d hd; cases hd; exact hwsp)
      unfold parseHeaderParamValue
      dsimp only
      rw [hspaces, if_neg (by simpa using hquote)]
      simp [readToken, htok]
    have hstep : paramsStep ([], 59 :: 32 :: (ascii "boundary" ++ 61 :: ([] ++ c :: post))) =
        .inl none := by
      rw [paramsStep, if_neg (by simp), List.nil_append,
        parseParam_cons_name tokenChars_boundary (by simp [ascii]), hvalue]
      rfl
    exact Loop.run_of_inl hstep _
  | cons d pre =>
    -- the token before `c` is the boundary, and `c` is no `;`
    have hvalue : parseHeaderParamValue (d :: pre ++ c :: post) = some (d :: pre, c :: post) :=
      parseHeaderParamValue_token hpre (List.cons_ne_nil d pre) (by intro e he; cases he; exact htok)
    have hspaces : skipOptionalSpaces (c :: post) = c :: post :=
      skipOptionalSpaces_of_head (by intro e he; cases he; exact hwsp)
    have hstep : paramsStep ([], 59 :: 32 :: (ascii "boundary" ++ 61 :: (d :: pre ++ c :: post))) =
        .inr ([(ascii "boundary", d :: pre)], c :: post) := by
      rw [paramsStep, if_neg (by simp), parseParam_cons_name tokenChars_boundary (by simp [ascii]),
        hvalue]
      simp only [Option.map_some, hspaces, List.nil_append]
    have hnext : paramsStep ([(ascii "boundary", d :: pre)], c :: post) = .inl none := by
      rw [paramsStep, if_neg (by simp), parseParam_of_head_ne hsemi]
    rw [Loop.run_of_inr paramsStep_decreasing hstep (by simp), Loop.run_of_inl hnext]

theorem nonToken_boundary_rejected {pre post : List UInt8} {c : UInt8}
    (hpre : ∀ d ∈ pre, isTokenChar d) (hc : c ∈ ascii "(),/:=?") (body : List UInt8)
    (args : FormDataArgs) (strictCrLf : Bool) :
    parseMultipartFormData (ascii "multipart/form-data; boundary=" ++ (pre ++ c :: post)) body args
      strictCrLf = none := by
  rw [ascii_multipartBoundary, parseMultipartFormData_of_semicolon,
    parseParams_nonToken_boundary hpre hc]
  rfl

set_option maxRecDepth 4096 in
theorem nonToken_boundary_rejected_slash :
    parseMultipartFormData (ascii "multipart/form-data; boundary=" ++ (ascii "a" ++ 47 :: ascii "b"))
      (formDataBody (ascii "a/b") [⟨ascii "x", none, none, ascii "1"⟩]) [] true = none :=
  nonToken_boundary_rejected (by decide) (by decide) _ [] true

end Multipart

end Http

end Userver
