import Userver.Lib.CType
import Userver.Lib.Loop
import Userver.Lib.KeyMap
import Userver.Http.HeaderMap.Hash

/-!
# `multipart/form-data` bodies

`ParseMultipartFormData` (`multipart_form_data_parser.cpp`) reads the `boundary` and `charset`
parameters of the `Content-Type`, then the body: the first delimiter `--boundary`, and for each
part a line break, its header lines up to an empty line, and its value up to the next line break
followed by `--boundary`; `--` after a delimiter ends the body.  A string is a list of bytes and
every `string_view` parameter that the code advances is returned with what is left of it; a
function that returns `false` returns `none`.

The parameters of a header are read by the same loop in `ParseContentDisposition` and for the
`Content-Type` (`parseParams`): each is a token, `=`, and a token or a quoted string.
-/

namespace Userver

namespace Http

namespace Multipart

open CType

/-! ## Characters and small readers -/

/-- `kCr`. -/
def kCr : UInt8 := 13

/-- `kLf`. -/
def kLf : UInt8 := 10

/-- The `crlf` of a strict parse. -/
def kCrLf : List UInt8 := [kCr, kLf]

/-- `kMultipartFormData`. -/
def kMultipartFormData : List UInt8 := ascii "multipart/form-data"

/-- `IsWsp`, and a byte of `kOwsChars`: a space or a tab. -/
def isWsp (c : UInt8) : Bool := c = 32 || c = 9

/-- `TrimOws`: `LtrimOws`, then `RtrimOws`. -/
def trimOws (str : List UInt8) : List UInt8 :=
  ((str.dropWhile isWsp).reverse.dropWhile isWsp).reverse

/-- `SkipOptionalSpaces`. -/
def skipOptionalSpaces (str : List UInt8) : List UInt8 := str.dropWhile isWsp

/-- `SkipSymbol(str, ch)`: the rest after `ch`, or none when `str` does not start with it. -/
def skipSymbol (str : List UInt8) (ch : UInt8) : Option (List UInt8) :=
  match str with
  | c :: rest => if c = ch then some rest else none
  | [] => none

/-- `SkipCrLf(str, crlf)`: each byte of `crlf` in turn. -/
def skipCrLf (str crlf : List UInt8) : Option (List UInt8) := crlf.foldlM skipSymbol str

/-- `SkipDoubleHyphen`. -/
def skipDoubleHyphen (str : List UInt8) : Option (List UInt8) := do
  let str ← skipSymbol str 45
  skipSymbol str 45

/-- The separators excluded from a token. -/
def kSeparators : List UInt8 := ascii "()<>@,;:\\\"/[]?={}"

/-- `kAllowed` of `ReadToken`: the `tchar`s of RFC 7230, printable ASCII but the separators. -/
def isTokenChar (c : UInt8) : Bool := 33 ≤ c && c < 127 && !kSeparators.contains c

/-- `ReadToken`: the longest prefix of token characters, and the rest. -/
def readToken (str : List UInt8) : List UInt8 × List UInt8 :=
  (str.takeWhile isTokenChar, str.dropWhile isTokenChar)

/-- `kAllowed` of `ReadHeaderValue`: a tab, or any byte from the space up but `DEL`. -/
def isFieldValueChar (c : UInt8) : Bool := c = 9 || (32 ≤ c && c ≠ 127)

/-- `ReadHeaderValue`: the longest prefix of field-value bytes, `TrimOws`-ed, and the rest. -/
def readHeaderValue (str : List UInt8) : List UInt8 × List UInt8 :=
  (trimOws (str.takeWhile isFieldValueChar), str.dropWhile isFieldValueChar)

/-- `AutoDetectCrLf(str, dflt)`: a line break that is a lone `\r` or `\n`, else `dflt`. -/
def autoDetectCrLf (str dflt : List UInt8) : List UInt8 :=
  match str with
  | c :: rest =>
    if (c = kCr ∨ c = kLf) ∧ (c = kLf ∨ rest.head? ≠ some kLf) then [c] else dflt
  | [] => dflt

/-- `IEquals`. -/
def iEquals (l r : List UInt8) : Bool := Headers.strIcaseEqual l r

/-! ## Header parameters -/

/-- The loop of `ParseHeaderParamValue` after the opening quote: the bytes up to the closing
quote, each one after a backslash taken as it is, and the rest after the quote. -/
def readQuoted (acc : List UInt8) : List UInt8 → Option (List UInt8 × List UInt8)
  | [] => none
  | c :: rest =>
    if c = 34 then some (acc, rest)
    else if c = 92 then
      match rest with
      | [] => none
      | d :: rest => readQuoted (acc ++ [d]) rest
    else readQuoted (acc ++ [c]) rest

/-- `ParseHeaderParamValue(str, value)`: after optional spaces, a quoted string or a non-empty
token; the value and the rest. -/
def parseHeaderParamValue (str : List UInt8) : Option (List UInt8 × List UInt8) :=
  let str := skipOptionalSpaces str
  if str.head? = some 34 then readQuoted [] str.tail
  else
    let (token, rest) := readToken str
    if token.isEmpty then none else some (token, rest)

/-- One iteration of the parameter loops: `;`, optional spaces, a non-empty parameter name,
optional spaces, `=`, its value, and optional spaces. -/
def parseParam (str : List UInt8) : Option ((List UInt8 × List UInt8) × List UInt8) := do
  let str ← skipSymbol str 59
  let (paramName, str) := readToken (skipOptionalSpaces str)
  if paramName.isEmpty then none
  else
    let str ← skipSymbol (skipOptionalSpaces str) 61
    let (value, str) ← parseHeaderParamValue str
    pure ((paramName, value), skipOptionalSpaces str)

/-- One iteration of `while (!str.empty())` over the parameters. -/
def paramsStep (s : List (List UInt8 × List UInt8) × List UInt8) :
    Option (List (List UInt8 × List UInt8)) ⊕ (List (List UInt8 × List UInt8) × List UInt8) :=
  if s.2.isEmpty then .inl (some s.1)
  else
    match parseParam s.2 with
    | none => .inl none
    | some (param, rest) => .inr (s.1 ++ [param], rest)

/-- The parameters of a header value, in order, or none when one is malformed. -/
def parseParams (str : List UInt8) : Option (List (List UInt8 × List UInt8)) :=
  Loop.run paramsStep (fun _ => none) (str.length + 1) ([], str)

/-- The value of the last parameter named `name` (compared without case), as the loops keep it;
`fallback` when there is none. -/
def lastParam (name : List UInt8) (fallback : List UInt8)
    (params : List (List UInt8 × List UInt8)) : List UInt8 :=
  params.foldl (fun value p => if iEquals p.1 name then p.2 else value) fallback

/-! ## Parts -/

/-- `FormDataArg`. -/
structure FormDataArg where
  value : List UInt8
  contentDisposition : List UInt8
  filename : Option (List UInt8)
  defaultCharset : Option (List UInt8)
  contentType : Option (List UInt8)
  deriving DecidableEq, Repr

/-- `FormDataArgInfo`. -/
structure FormDataArgInfo where
  name : List UInt8
  arg : FormDataArg
  deriving DecidableEq, Repr

/-- A default-constructed `FormDataArgInfo`. -/
def FormDataArgInfo.empty : FormDataArgInfo := ⟨[], ⟨[], [], none, none, none⟩⟩

/-- `FormDataArgs`: the parts of each name, in order. -/
abbrev FormDataArgs := List (List UInt8 × List FormDataArg)

/-- `form_data_args[name].push_back(arg)`. -/
def pushArg (args : FormDataArgs) (name : List UInt8) (arg : FormDataArg) : FormDataArgs :=
  KeyMap.insert name ((KeyMap.find? name args).getD [] ++ [arg]) args

/-- `ParseContentDisposition(content_disposition, arg_info)`: `form-data`, then the parameters,
of which `name` and `filename` are kept; a name is required. -/
def parseContentDisposition (contentDisposition : List UInt8) (info : FormDataArgInfo) :
    Option FormDataArgInfo := do
  let (value, str) := readToken contentDisposition
  if !iEquals value (ascii "form-data") then none
  else
    let params ← parseParams (skipOptionalSpaces str)
    -- `is_name` is checked before `is_filename`
    let info := params.foldl (fun info p =>
      if iEquals p.1 (ascii "name") then { info with name := p.2 }
      else if iEquals p.1 (ascii "filename") then { info with arg.filename := some p.2 }
      else info) info
    if info.name.isEmpty then none else pure info

/-- `ProcessMultipartFormDataHeader(name, value, arg_info)`: other headers are ignored. -/
def processMultipartFormDataHeader (name value : List UInt8) (info : FormDataArgInfo) :
    Option FormDataArgInfo :=
  if iEquals name (ascii "Content-Disposition") then
    parseContentDisposition value { info with arg.contentDisposition := value }
  else if iEquals name (ascii "Content-Type") then some { info with arg.contentType := some value }
  else some info

/-- One iteration of the header loop of `ParseMultipartFormDataHeaders`: the end of the body or
an empty line ends it; otherwise a header line `name: value` and its line break. -/
def headersStep (crlf : List UInt8) (s : List UInt8 × FormDataArgInfo) :
    Option (List UInt8 × FormDataArgInfo) ⊕ (List UInt8 × FormDataArgInfo) :=
  if s.1.isEmpty then .inl none
  else if crlf.isPrefixOf s.1 then .inl ((skipCrLf s.1 crlf).map fun body => (body, s.2))
  else
    let (headerName, body) := readToken s.1
    if headerName.isEmpty then .inl none
    else
      match skipSymbol body 58 with
      | none => .inl none
      | some body =>
        let (headerValue, body) := readHeaderValue body
        match skipCrLf body crlf with
        | none => .inl none
        | some body =>
          match processMultipartFormDataHeader headerName headerValue s.2 with
          | none => .inl none
          | some info => .inr (body, info)

/-- `ParseMultipartFormDataHeaders(body, arg_info, crlf)`: the header lines and the empty line
after them; the body after it and the part's info. -/
def parseMultipartFormDataHeaders (body : List UInt8) (info : FormDataArgInfo)
    (crlf : List UInt8) : Option (List UInt8 × FormDataArgInfo) :=
  Loop.run (headersStep crlf) (fun _ => none) (body.length + 1) (body, info)

/-- The `while` loop comparing the boundary: the length of the common prefix. -/
def matchLength : List UInt8 → List UInt8 → Nat
  | c :: rest, b :: boundary => if c = b then matchLength rest boundary + 1 else 0
  | _, _ => 0

/-- One iteration of `FindBoundaryEnd`: at a line break followed by `--`, the boundary is
compared, and the scan goes on after the bytes that matched. -/
def findBoundaryEndStep (body boundary crlf : List UInt8) (pos : Nat) : Option Nat ⊕ Nat :=
  if pos < body.length then
    if body.getD pos 0 = crlf.headD 0 then
      if pos + crlf.length < body.length ∧ (body.drop pos).take crlf.length = crlf then
        let pos := pos + crlf.length
        if pos < body.length ∧ body.getD pos 0 = 45 then
          let pos := pos + 1
          if pos < body.length ∧ body.getD pos 0 = 45 then
            let pos := pos + 1
            let idx := matchLength (body.drop pos) boundary
            if idx = boundary.length then .inl (some (pos + idx)) else .inr (pos + idx)
          else .inr pos
        else .inr pos
      else .inr (pos + 1)
    else .inr (pos + 1)
  else .inl none

/-- `FindBoundaryEnd(body, boundary, crlf)`: the position after the first delimiter, or
`npos`. -/
def findBoundaryEnd (body boundary crlf : List UInt8) : Option Nat :=
  Loop.run (findBoundaryEndStep body boundary crlf) (fun _ => none) (body.length + 1) 0

/-- What `FindBoundaryEnd` looks for: the line break, `--` and the boundary. -/
def delimiter (crlf boundary : List UInt8) : List UInt8 := crlf ++ [45, 45] ++ boundary

/-- `ParseMultipartFormDataValue`: the value up to the delimiter, kept as the charset for the
name `_charset_` and pushed to its name otherwise; the body after the delimiter and optional
spaces. -/
def parseMultipartFormDataValue (body boundary : List UInt8) (info : FormDataArgInfo)
    (charset : Option (List UInt8)) (args : FormDataArgs) (crlf : List UInt8) :
    Option (List UInt8 × Option (List UInt8) × FormDataArgs) :=
  if info.arg.contentDisposition.isEmpty then none
  else
    match findBoundaryEnd body boundary crlf with
    | none => none
    | some pos =>
      let value := body.take (pos - boundary.length - 2 - crlf.length)
      let arg := { info.arg with value := value }
      let rest := skipOptionalSpaces (body.drop pos)
      if info.name = ascii "_charset_" then some (rest, some value, args)
      else some (rest, charset, pushArg args info.name arg)

/-- The charset, when there is one, as the default charset of every part. -/
def setDefaultCharset (charset : Option (List UInt8)) (args : FormDataArgs) : FormDataArgs :=
  match charset with
  | some charset => args.map fun e => (e.1, e.2.map fun arg => { arg with defaultCharset := charset })
  | none => args

/-- One iteration of the parts loop of `ParseMultipartFormDataBody`: `--` ends the body (after
optional spaces, a line break if anything follows); otherwise a line break, the headers and the
value of a part. -/
def partsStep (boundary crlf : List UInt8)
    (s : List UInt8 × Option (List UInt8) × FormDataArgs) :
    Option FormDataArgs ⊕ (List UInt8 × Option (List UInt8) × FormDataArgs) :=
  match s.1 with
  | [] => .inl none
  | c :: _ =>
    if c = 45 then
      match skipDoubleHyphen s.1 with
      | none => .inl none
      | some body =>
        let body := skipOptionalSpaces body
        -- extra bytes after the line break are only logged
        if !body.isEmpty ∧ skipCrLf body crlf = none then .inl none
        else .inl (some (setDefaultCharset s.2.1 s.2.2))
    else
      match skipCrLf s.1 crlf with
      | none => .inl none
      | some body =>
        match parseMultipartFormDataHeaders body FormDataArgInfo.empty crlf with
        | none => .inl none
        | some (body, info) =>
          match parseMultipartFormDataValue body boundary info s.2.1 s.2.2 crlf with
          | none => .inl none
          | some next => .inr next

/-- `ParseMultipartFormDataBody(body, boundary, default_charset, form_data_args, strict_cr_lf)`:
the first delimiter, at the start or after a preamble, then the parts. -/
def parseMultipartFormDataBody (body boundary defaultCharset : List UInt8) (args : FormDataArgs)
    (strictCrLf : Bool) : Option FormDataArgs := do
  let (body, crlf) ←
    if boundary.length + 2 ≤ body.length ∧ body.take 2 = [45, 45] ∧
        (body.drop 2).take boundary.length = boundary then
      let body := body.drop (2 + boundary.length)
      pure (body, if strictCrLf then kCrLf else autoDetectCrLf body kCrLf)
    else
      let body := body.dropWhile fun c => c ≠ kCr ∧ c ≠ kLf
      let crlf := if strictCrLf then kCrLf else autoDetectCrLf body kCrLf
      let pos ← findBoundaryEnd body boundary crlf
      pure (body.drop pos, crlf)
  let body := skipOptionalSpaces body
  let charset := if defaultCharset.isEmpty then none else some defaultCharset
  Loop.run (partsStep boundary crlf) (fun _ => none) (body.length + 1) (body, charset, args)

/-- `IsMultipartFormDataContentType`: `multipart/form-data` without case, alone or followed by
`;`, a space or a tab. -/
def isMultipartFormDataContentType (contentType : List UInt8) : Bool :=
  iEquals (contentType.take kMultipartFormData.length) kMultipartFormData &&
    (contentType.length = kMultipartFormData.length ||
      [59, 32, 9].contains (contentType.getD kMultipartFormData.length 0))

/-- `ParseMultipartFormData(content_type, body, form_data_args, strict_cr_lf)`. -/
def parseMultipartFormData (contentType body : List UInt8) (args : FormDataArgs)
    (strictCrLf : Bool) : Option FormDataArgs := do
  if !isMultipartFormDataContentType contentType then none
  else
    let params ← parseParams
      (skipOptionalSpaces (contentType.drop kMultipartFormData.length))
    let boundary := lastParam (ascii "boundary") [] params
    let charset := lastParam (ascii "charset") [] params
    if boundary.isEmpty then none
    else parseMultipartFormDataBody body boundary charset args strictCrLf

/-! ## The readers on what they are given -/

section Readers

variable {α : Type}

/-- `takeWhile` and `dropWhile` split at the end of a run of bytes that satisfy `p`. -/
theorem span_append {p : α → Bool} {run rest : List α} (inside : ∀ c ∈ run, p c)
    (boundary : ∀ c, rest.head? = some c → p c = false) :
    (run ++ rest).takeWhile p = run ∧ (run ++ rest).dropWhile p = rest := by
  rw [List.takeWhile_append_of_pos inside, List.dropWhile_append_of_pos inside]
  cases rest with
  | nil => simp
  | cons c tail => simp [boundary c rfl]

theorem skipSymbol_eq_some {str rest : List UInt8} {ch : UInt8} :
    skipSymbol str ch = some rest ↔ str = ch :: rest := by
  cases str with
  | nil => simp [skipSymbol]
  | cons c tail =>
    unfold skipSymbol
    by_cases hc : c = ch <;> simp [hc]

theorem skipCrLf_cons (d c : UInt8) (tail crlf : List UInt8) :
    skipCrLf (d :: tail) (c :: crlf) = if d = c then skipCrLf tail crlf else none := by
  by_cases hd : d = c <;> simp [skipCrLf, skipSymbol, hd]

/-- `SkipCrLf` succeeds exactly on a string that starts with the line break. -/
theorem skipCrLf_eq_some {str crlf rest : List UInt8} :
    skipCrLf str crlf = some rest ↔ str = crlf ++ rest := by
  induction crlf generalizing str with
  | nil => simp [skipCrLf]
  | cons c crlf ih =>
    cases str with
    | nil => simp [skipCrLf, skipSymbol]
    | cons d tail =>
      rw [skipCrLf_cons]
      by_cases hd : d = c
      · simp [hd, ih]
      · simp [hd]

theorem skipOptionalSpaces_of_head {str : List UInt8}
    (h : ∀ c, str.head? = some c → isWsp c = false) : skipOptionalSpaces str = str := by
  cases str with
  | nil => rfl
  | cons c tail => simp [skipOptionalSpaces, h c rfl]

theorem skipOptionalSpaces_length_le (str : List UInt8) :
    (skipOptionalSpaces str).length ≤ str.length :=
  (List.dropWhile_suffix _).length_le

theorem readToken_append {token rest : List UInt8} (htoken : ∀ c ∈ token, isTokenChar c)
    (hrest : ∀ c, rest.head? = some c → isTokenChar c = false) :
    readToken (token ++ rest) = (token, rest) := by
  obtain ⟨htake, hdrop⟩ := span_append htoken hrest
  rw [readToken, htake, hdrop]

theorem readToken_append_self (str : List UInt8) : (readToken str).1 ++ (readToken str).2 = str :=
  List.takeWhile_append_dropWhile

theorem readHeaderValue_append {value rest : List UInt8}
    (hvalue : ∀ c ∈ value, isFieldValueChar c)
    (hrest : ∀ c, rest.head? = some c → isFieldValueChar c = false) :
    readHeaderValue (value ++ rest) = (trimOws value, rest) := by
  obtain ⟨htake, hdrop⟩ := span_append hvalue hrest
  rw [readHeaderValue, htake, hdrop]

theorem readHeaderValue_length_le (str : List UInt8) :
    (readHeaderValue str).2.length ≤ str.length :=
  (List.dropWhile_suffix _).length_le

/-- The equation of `readQuoted` at a non-empty string, which its own equations split further. -/
theorem readQuoted_cons (acc : List UInt8) (c : UInt8) (rest : List UInt8) :
    readQuoted acc (c :: rest) =
      if c = 34 then some (acc, rest)
      else if c = 92 then
        match rest with
        | [] => none
        | d :: rest => readQuoted (acc ++ [d]) rest
      else readQuoted (acc ++ [c]) rest := by
  cases rest <;> rfl

theorem readQuoted_length {acc str value rest : List UInt8}
    (h : readQuoted acc str = some (value, rest)) : rest.length < str.length := by
  fun_induction readQuoted acc str with
  | case1 => cases h
  | case2 acc tail =>
    cases h
    simp
  | case3 => cases h
  | case4 acc d tail _ ih =>
    have hlt := ih h
    simp only [List.length_cons]
    omega
  | case5 acc c tail _ _ ih =>
    have hlt := ih h
    simp only [List.length_cons]
    omega

theorem parseHeaderParamValue_length {str value rest : List UInt8}
    (h : parseHeaderParamValue str = some (value, rest)) : rest.length < str.length := by
  have hspaces := skipOptionalSpaces_length_le str
  unfold parseHeaderParamValue at h
  dsimp only at h
  split at h
  next hquote =>
    -- a quoted string: the quote, then `readQuoted`
    obtain ⟨tail, htail⟩ : ∃ tail, skipOptionalSpaces str = 34 :: tail := by
      cases hs : skipOptionalSpaces str with
      | nil => simp [hs] at hquote
      | cons c tail => simp_all
    rw [htail, List.tail_cons] at h
    have hlt := readQuoted_length h
    rw [htail, List.length_cons] at hspaces
    omega
  · -- a token, which is not empty
    split at h
    · cases h
    next htoken =>
      cases h
      have hsplit := congrArg List.length (readToken_append_self (skipOptionalSpaces str))
      have hne : 0 < (readToken (skipOptionalSpaces str)).1.length := by
        simpa [List.length_pos_iff] using htoken
      simp only [List.length_append] at hsplit
      omega

theorem parseParam_length {str rest : List UInt8} {param : List UInt8 × List UInt8}
    (h : parseParam str = some (param, rest)) : rest.length < str.length := by
  simp only [parseParam, Option.bind_eq_bind, Option.bind_eq_some_iff] at h
  obtain ⟨str₁, hsemi, h⟩ := h
  rw [skipSymbol_eq_some] at hsemi
  split at h
  · cases h
  next hname =>
  obtain ⟨str₃, heq, h⟩ := Option.bind_eq_some_iff.1 h
  obtain ⟨⟨value, str₄⟩, hvalue, h⟩ := Option.bind_eq_some_iff.1 h
  cases Option.some.inj h
  dsimp only
  rw [skipSymbol_eq_some] at heq
  -- every reader keeps a suffix, and `;` is consumed
  have h₁ := skipOptionalSpaces_length_le str₁
  have h₂ := congrArg List.length (readToken_append_self (skipOptionalSpaces str₁))
  have h₃ := skipOptionalSpaces_length_le (readToken (skipOptionalSpaces str₁)).2
  have h₄ := parseHeaderParamValue_length hvalue
  have h₅ := skipOptionalSpaces_length_le str₄
  rw [heq] at h₃
  simp only [List.length_append, List.length_cons] at h₂ h₃
  rw [hsemi, List.length_cons]
  omega

/-- Every iteration of the parameter loop consumes a parameter. -/
theorem paramsStep_decreasing : Loop.Decreasing paramsStep fun s => s.2.length := by
  rintro ⟨acc, str⟩ ⟨acc', rest⟩ h
  unfold paramsStep at h
  split at h
  · cases h
  split at h
  · cases h
  next param rest' hparam =>
    cases h
    exact parseParam_length hparam

/-- Every header line the header loop reads consumes at least its `:`. -/
theorem headersStep_decreasing (crlf : List UInt8) :
    Loop.Decreasing (headersStep crlf) fun s => s.1.length := by
  rintro ⟨body, info⟩ ⟨body', info'⟩ h
  simp only [headersStep] at h
  split at h
  · cases h
  split at h
  · cases h
  split at h
  · cases h
  split at h
  · cases h
  next body₁ hcolon =>
  split at h
  · cases h
  next body₂ hcrlf =>
  split at h
  · cases h
  cases h
  rw [skipSymbol_eq_some] at hcolon
  rw [skipCrLf_eq_some] at hcrlf
  have h₁ := congrArg List.length (readToken_append_self body)
  have h₂ := readHeaderValue_length_le body₁
  rw [hcolon] at h₁
  rw [hcrlf] at h₂
  simp only [List.length_append, List.length_cons] at h₁ h₂ ⊢
  omega

end Readers

/-! ## The boundary scan

`FindBoundaryEnd` skips what it matched of a delimiter when the match fails.  It skips no
delimiter, because the first byte of the line break occurs nowhere else in the delimiter: a
partial match that started inside the value cannot reach past the value's end
(`length_le_of_append_eq`).  So the scan stops at the end of the first delimiter after a value
that does not contain one (`findBoundaryEnd_append`).
-/

section Scan

variable {α : Type}

theorem getD_of_drop_eq_cons {l t : List α} {p : Nat} {x : α} (d : α) (h : l.drop p = x :: t) :
    p < l.length ∧ l.getD p d = x := by
  have hlen : p < l.length := by
    have hl := congrArg List.length h
    simp only [List.length_drop, List.length_cons] at hl
    omega
  refine ⟨hlen, ?_⟩
  rw [List.getD_eq_getElem?_getD, ← Nat.add_zero p, ← List.getElem?_drop, h]
  rfl

theorem drop_eq_cons_of_getD {l : List α} {p : Nat} {x d : α} (hp : p < l.length)
    (h : l.getD p d = x) : l.drop p = x :: l.drop (p + 1) := by
  rw [List.drop_eq_getElem_cons hp, ← List.getD_eq_getElem l d hp, h]

theorem drop_eq_append_of_take {l t : List α} {p : Nat} (h : (l.drop p).take t.length = t) :
    l.drop p = t ++ l.drop (p + t.length) := by
  rw [← List.take_append_drop t.length (l.drop p), h, List.drop_drop]

theorem length_le_of_append_eq {x : α} {w S U t rest : List α} (hx : x ∉ w) (hS : S <+: x :: w)
    (hU : U ≠ []) (h : U ++ (x :: w ++ rest) = S ++ t) : S.length ≤ U.length := by
  by_contra hlt
  rw [not_le] at hlt
  obtain ⟨k, hk⟩ : ∃ k, U.length = k + 1 :=
    ⟨U.length - 1, by have := List.length_pos_iff.2 hU; omega⟩
  -- where `U` ends the occurrence starts with `x`, and the prefix has a letter of `w` there
  have hleft : (U ++ (x :: w ++ rest))[U.length]? = some x := by
    rw [List.getElem?_append_right le_rfl, Nat.sub_self]
    rfl
  have hright : (S ++ t)[U.length]? = w[k]? := by
    obtain ⟨s', hs'⟩ := hS
    rw [List.getElem?_append_left hlt, ← @List.getElem?_append_left _ S s' _ hlt, hs', hk]
    rfl
  rw [h, hright] at hleft
  exact hx (List.mem_of_getElem? hleft)

end Scan

theorem matchLength_le (l b : List UInt8) : matchLength l b ≤ b.length := by
  fun_induction matchLength l b <;> simp_all

theorem matchLength_spec (l b : List UInt8) :
    l = b.take (matchLength l b) ++ l.drop (matchLength l b) := by
  fun_induction matchLength l b with
  | case1 rest b boundary ih =>
    simp only [List.take_succ_cons, List.drop_succ_cons, List.cons_append]
    rw [← ih]
  | case2 => simp
  | case3 => simp

theorem matchLength_append_self (b rest : List UInt8) : matchLength (b ++ rest) b = b.length := by
  induction b with
  | nil => cases rest <;> rfl
  | cons c b ih => simp [matchLength, ih]


theorem findBoundaryEndStep_inr {body boundary crlf : List UInt8} {pos pos' : Nat}
    (h : findBoundaryEndStep body boundary crlf pos = .inr pos') :
    pos' = pos + 1 ∨ ∃ S, S <+: delimiter crlf boundary ∧ crlf.length ≤ S.length ∧
      pos' = pos + S.length ∧ body.drop pos = S ++ body.drop pos' := by
  unfold findBoundaryEndStep at h
  dsimp only at h
  split_ifs at h with hpos hc hcrlf hd₁ hd₂ hidx <;> cases h
  -- what was matched: the line break, then each `-`, then a part of the boundary
  all_goals try (right; have hbreak := drop_eq_append_of_take hcrlf.2)
  · have hdash₁ := drop_eq_cons_of_getD hd₁.1 hd₁.2
    have hdash₂ := drop_eq_cons_of_getD hd₂.1 hd₂.2
    have hmatch := matchLength_spec (body.drop (pos + crlf.length + 1 + 1)) boundary
    rw [List.drop_drop] at hmatch
    refine ⟨crlf ++ [45, 45] ++ boundary.take
      (matchLength (body.drop (pos + crlf.length + 1 + 1)) boundary), ?_, ?_, ?_, ?_⟩
    · rw [delimiter, List.append_assoc, List.append_assoc]
      exact (List.prefix_append_right_inj _).2
        ((List.prefix_append_right_inj _).2 (List.take_prefix _ _))
    · simp
    · have hle := matchLength_le (body.drop (pos + crlf.length + 1 + 1)) boundary
      simp only [List.length_append, List.length_take, List.length_cons, List.length_nil]
      omega
    · rw [hbreak, hdash₁, hdash₂]
      conv_lhs => rw [hmatch]
      simp
  · have hdash₁ := drop_eq_cons_of_getD hd₁.1 hd₁.2
    refine ⟨crlf ++ [45], ?_, by simp, by simp only [List.length_append, List.length_singleton]; omega,
      ?_⟩
    · rw [delimiter, List.append_assoc]
      exact (List.prefix_append_right_inj _).2 (by simp)
    · rw [hbreak, hdash₁]
      simp
  · refine ⟨crlf, ?_, le_rfl, rfl, hbreak⟩
    rw [delimiter, List.append_assoc]
    exact List.prefix_append _ _
  · exact .inl rfl
  · exact .inl rfl

theorem findBoundaryEndStep_inl {body boundary crlf : List UInt8} {pos : Nat} {r : Option Nat}
    (h : findBoundaryEndStep body boundary crlf pos = .inl r) :
    (r = none ∧ body.length ≤ pos) ∨
      (r = some (pos + (delimiter crlf boundary).length) ∧
        body.drop pos = delimiter crlf boundary ++ body.drop (pos + (delimiter crlf boundary).length)) := by
  unfold findBoundaryEndStep at h
  dsimp only at h
  split_ifs at h with hpos hc hcrlf hd₁ hd₂ hidx <;> cases h
  · -- the whole boundary matched after the line break and `--`
    right
    have hbreak := drop_eq_append_of_take hcrlf.2
    have hdash₁ := drop_eq_cons_of_getD hd₁.1 hd₁.2
    have hdash₂ := drop_eq_cons_of_getD hd₂.1 hd₂.2
    have hmatch := matchLength_spec (body.drop (pos + crlf.length + 1 + 1)) boundary
    rw [List.drop_drop, hidx, List.take_length] at hmatch
    have hlen : (delimiter crlf boundary).length = crlf.length + 2 + boundary.length := by
      simp only [delimiter, List.length_append, List.length_cons, List.length_nil]
    have hend : pos + crlf.length + 1 + 1 + boundary.length =
        pos + (delimiter crlf boundary).length := by
      rw [hlen]
      omega
    rw [hidx, hend]
    refine ⟨rfl, ?_⟩
    rw [hbreak, hdash₁, hdash₂, hmatch, hend]
    simp only [delimiter, List.append_assoc, List.cons_append, List.nil_append]
  · exact .inl ⟨rfl, by omega⟩

theorem findBoundaryEndStep_of_drop {body boundary crlf rest : List UInt8} {pos : Nat}
    (hcrlf : crlf ≠ []) (h : body.drop pos = delimiter crlf boundary ++ rest) :
    findBoundaryEndStep body boundary crlf pos =
      .inl (some (pos + (delimiter crlf boundary).length)) := by
  obtain ⟨c, crlf', rfl⟩ := List.exists_cons_of_ne_nil hcrlf
  have hstart : body.drop pos = c :: (crlf' ++ 45 :: 45 :: (boundary ++ rest)) := by
    rw [h]
    simp [delimiter]
  have hdash : body.drop (pos + (c :: crlf').length) = 45 :: 45 :: (boundary ++ rest) := by
    rw [← List.drop_drop, hstart]
    simp
  have hdash' : body.drop (pos + (c :: crlf').length + 1) = 45 :: (boundary ++ rest) := by
    rw [← List.drop_drop, hdash]
    rfl
  have hbound : body.drop (pos + (c :: crlf').length + 1 + 1) = boundary ++ rest := by
    rw [← List.drop_drop, hdash']
    rfl
  obtain ⟨hpos, hc⟩ := getD_of_drop_eq_cons 0 hstart
  obtain ⟨hpos₁, hd₁⟩ := getD_of_drop_eq_cons 0 hdash
  obtain ⟨hpos₂, hd₂⟩ := getD_of_drop_eq_cons 0 hdash'
  have hcrlf' : (body.drop pos).take (c :: crlf').length = c :: crlf' := by
    rw [hstart]
    simp
  unfold findBoundaryEndStep
  dsimp only
  have hc' : body.getD pos 0 = (c :: crlf').headD 0 := hc
  rw [if_pos hpos, if_pos hc', if_pos ⟨hpos₁, hcrlf'⟩, if_pos ⟨hpos₁, hd₁⟩, if_pos ⟨hpos₂, hd₂⟩,
    hbound, matchLength_append_self, if_pos rfl]
  simp [delimiter]
  omega

theorem findBoundaryEnd_append {value rest boundary crlf crlf' : List UInt8} {c : UInt8}
    (hcrlf : crlf = c :: crlf') (hc : c ∉ crlf' ++ [45, 45] ++ boundary)
    (hvalue : ¬delimiter crlf boundary <:+: value) :
    findBoundaryEnd (value ++ delimiter crlf boundary ++ rest) boundary crlf =
      some (value.length + (delimiter crlf boundary).length) := by
  have hD : delimiter crlf boundary = c :: (crlf' ++ [45, 45] ++ boundary) := by
    simp [delimiter, hcrlf]
  have hlen : (value ++ delimiter crlf boundary ++ rest).length =
      value.length + (delimiter crlf boundary).length + rest.length := by
    simp only [List.length_append]
  have hDpos : 0 < (delimiter crlf boundary).length := by
    rw [hD, List.length_cons]
    omega
  -- what the scan matched from a position inside the value ends within the value
  have hbefore : ∀ pos S t, pos < value.length → S <+: delimiter crlf boundary →
      (value ++ delimiter crlf boundary ++ rest).drop pos = S ++ t →
      pos + S.length ≤ value.length := by
    intro pos S t hpos hS ht
    have hdrop : (value ++ delimiter crlf boundary ++ rest).drop pos =
        value.drop pos ++ (delimiter crlf boundary ++ rest) := by
      rw [List.append_assoc, List.drop_append_of_le_length hpos.le]
    have hU : value.drop pos ≠ [] := by
      simp only [ne_eq, List.drop_eq_nil_iff, not_le]
      exact hpos
    have hmatch : value.drop pos ++ (c :: (crlf' ++ [45, 45] ++ boundary) ++ rest) = S ++ t := by
      rw [← hD, ← hdrop, ht]
    rw [hD] at hS
    have hle := length_le_of_append_eq hc hS hU hmatch
    rw [List.length_drop] at hle
    omega
  unfold findBoundaryEnd
  refine Loop.run_invariant_of_lt (fun pos => pos ≤ value.length)
    (fun r => r = some (value.length + (delimiter crlf boundary).length))
    (fun pos => (value ++ delimiter crlf boundary ++ rest).length - pos) ?_ _ 0
    (Nat.zero_le _) (by omega)
  intro pos hpos
  rcases Nat.lt_or_ge pos value.length with hlt | hge
  · refine ⟨fun r hr => ?_, fun pos' hpos' => ?_⟩
    · -- a whole delimiter read before the value ends would lie inside the value
      exfalso
      rcases findBoundaryEndStep_inl hr with ⟨-, hend⟩ | ⟨-, hdrop⟩
      · omega
      · have hle := hbefore pos _ _ hlt (List.prefix_refl _) hdrop
        apply hvalue
        have hpre : delimiter crlf boundary <+: value.drop pos := by
          refine List.prefix_of_prefix_length_le ⟨_, hdrop.symm⟩ ?_ (by simp; omega)
          rw [List.append_assoc, List.drop_append_of_le_length hlt.le]
          exact List.prefix_append _ _
        exact hpre.isInfix.trans (List.drop_suffix _ _).isInfix
    · rcases findBoundaryEndStep_inr hpos' with rfl | ⟨S, hS, hSlen, rfl, hdrop⟩
      · exact ⟨by omega, by omega⟩
      · have hle := hbefore pos S _ hlt hS hdrop
        have hcrlf₁ : 1 ≤ crlf.length := by
          rw [hcrlf, List.length_cons]
          omega
        exact ⟨hle, by omega⟩
  · -- at the end of the value the scan reads the delimiter
    have heq : pos = value.length := le_antisymm hpos hge
    subst heq
    have hstep := findBoundaryEndStep_of_drop (hcrlf ▸ List.cons_ne_nil c crlf')
      (show (value ++ delimiter crlf boundary ++ rest).drop value.length =
        delimiter crlf boundary ++ rest by simp)
    refine ⟨fun r hr => ?_, fun pos' hpos' => ?_⟩
    · rw [hstep] at hr
      cases hr
      rfl
    · rw [hstep] at hpos'
      cases hpos'
end Multipart

end Http

end Userver
