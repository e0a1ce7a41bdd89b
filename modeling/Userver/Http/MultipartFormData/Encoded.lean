import Userver.Http.MultipartFormData

/-!
# The bodies a form encoder writes, one part at a time

`formDataBody` writes a list of parts as a client does: the first delimiter, each part's
`Content-Disposition` with its name and filename as quoted strings, its `Content-Type`, an empty
line, its value and the next delimiter, and `--` at the end.  The parser reads such a body back
one iteration of its loops at a time: a quoted parameter (`parseParam_quotedParam`), a header
line (`headersStep_line`), the header lines of a part (`parseMultipartFormDataHeaders_headers`),
its value up to the delimiter (`parseMultipartFormDataValue_encode`), and then the whole parts
loop by induction on the parts (`run_partsStep_encode`).
-/

namespace Userver

namespace Http

namespace Multipart

open CType


/-! ## The bodies a form encoder writes

Not the parser's source: a body as a client writes it for a list of parts, with the names and
filenames as quoted strings, and what reading it back should give.
-/

/-- A part of a form: its name, its filename and `Content-Type` when it has them, and its value. -/
structure FormDataPart where
  name : List UInt8
  filename : Option (List UInt8)
  contentType : Option (List UInt8)
  value : List UInt8
  deriving DecidableEq, Repr

/-- The content of a quoted string: `"` and `\\` escaped with a backslash. -/
def quoteEscape (s : List UInt8) : List UInt8 :=
  s.flatMap fun c => if c = 34 ∨ c = 92 then [92, c] else [c]

/-- `; name="value"`. -/
def quotedParam (name value : List UInt8) : List UInt8 :=
  ascii "; " ++ name ++ ascii "=\"" ++ quoteEscape value ++ ascii "\""

/-- The `Content-Disposition` of a part. -/
def FormDataPart.contentDisposition (p : FormDataPart) : List UInt8 :=
  ascii "form-data" ++ quotedParam (ascii "name") p.name ++
    match p.filename with
    | some filename => quotedParam (ascii "filename") filename
    | none => []

/-- The header lines of a part. -/
def FormDataPart.headers (p : FormDataPart) : List UInt8 :=
  ascii "Content-Disposition: " ++ p.contentDisposition ++ kCrLf ++
    match p.contentType with
    | some contentType => ascii "Content-Type: " ++ contentType ++ kCrLf
    | none => []

/-- A part in the body: its headers, an empty line, its value and the delimiter after it. -/
def FormDataPart.encode (boundary : List UInt8) (p : FormDataPart) : List UInt8 :=
  p.headers ++ kCrLf ++ p.value ++ delimiter kCrLf boundary

/-- The body of a form: `--boundary`, a line break, the parts with a line break between two of
them, and `--` with a line break. -/
def formDataBody (boundary : List UInt8) (parts : List FormDataPart) : List UInt8 :=
  ascii "--" ++ boundary ++ kCrLf ++ kCrLf.intercalate (parts.map (FormDataPart.encode boundary)) ++
    ascii "--" ++ kCrLf

/-- The `FormDataArg` a part should be read as, before the default charset is set. -/
def FormDataPart.toArg (p : FormDataPart) : FormDataArg :=
  ⟨p.value, p.contentDisposition, p.filename, none, p.contentType⟩

/-- What reading a part should do to the charset and the arguments. -/
def addPart (s : Option (List UInt8) × FormDataArgs) (p : FormDataPart) :
    Option (List UInt8) × FormDataArgs :=
  if p.name = ascii "_charset_" then (some p.value, s.2) else (s.1, pushArg s.2 p.name p.toArg)

/-- A part that the parser reads back as it was written: a non-empty name, a name and a filename
of field-value bytes, a `Content-Type` of field-value bytes that `TrimOws` keeps, and a value
without the delimiter. -/
structure FormDataPart.Readable (boundary : List UInt8) (p : FormDataPart) : Prop where
  name_ne_nil : p.name ≠ []
  name_fieldValue : ∀ c ∈ p.name, isFieldValueChar c
  filename_fieldValue : ∀ filename, p.filename = some filename → ∀ c ∈ filename, isFieldValueChar c
  contentType_fieldValue : ∀ contentType, p.contentType = some contentType →
    (∀ c ∈ contentType, isFieldValueChar c) ∧ trimOws contentType = contentType
  value_delimiter : ¬delimiter kCrLf boundary <:+: p.value

/-! ## Reading back what an encoder writes -/

section Encoded

theorem isWsp_of_isTokenChar {c : UInt8} (h : isTokenChar c) : isWsp c = false := by
  simp only [isTokenChar, Bool.and_eq_true, decide_eq_true_eq] at h
  have h33 : (33 : UInt8) ≤ c := h.1.1
  simp only [isWsp, Bool.or_eq_false_iff, decide_eq_false_iff_not]
  constructor
  · rintro rfl
    exact absurd h33 (by decide)
  · rintro rfl
    exact absurd h33 (by decide)

theorem quoteEscape_cons (c : UInt8) (s : List UInt8) :
    quoteEscape (c :: s) = (if c = 34 ∨ c = 92 then [92, c] else [c]) ++ quoteEscape s :=
  List.flatMap_cons

/-- The quoted-string reader undoes the escaping. -/
theorem readQuoted_quoteEscape (acc s rest : List UInt8) :
    readQuoted acc (quoteEscape s ++ 34 :: rest) = some (acc ++ s, rest) := by
  induction s generalizing acc with
  | nil => simp [quoteEscape, readQuoted_cons]
  | cons c s ih =>
    rw [quoteEscape_cons]
    split
    next hc =>
      -- an escaped byte: the backslash, then the byte as it is
      simp only [List.cons_append, List.nil_append]
      rw [readQuoted, if_neg (by decide), if_pos rfl, ih, List.append_assoc, List.singleton_append]
    next hc =>
      have h34 : c ≠ 34 := fun h => hc (.inl h)
      have h92 : c ≠ 92 := fun h => hc (.inr h)
      simp only [List.cons_append, List.nil_append]
      rw [readQuoted_cons, if_neg h34, if_neg h92, ih, List.append_assoc, List.singleton_append]

theorem quotedParam_append (name value rest : List UInt8) :
    quotedParam name value ++ rest =
      59 :: 32 :: (name ++ 61 :: 34 :: (quoteEscape value ++ 34 :: rest)) := by
  simp [quotedParam, show ascii "; " = [59, 32] from rfl, show ascii "=\"" = [61, 34] from rfl,
    show ascii "\"" = [34] from rfl]

theorem skipOptionalSpaces_cons_space (str : List UInt8) :
    skipOptionalSpaces (32 :: str) = skipOptionalSpaces str := by
  simp [skipOptionalSpaces, isWsp]

/-- The parameter reader reads a quoted parameter back. -/
theorem parseParam_quotedParam {name value rest : List UInt8} (hname : ∀ c ∈ name, isTokenChar c)
    (hne : name ≠ []) (hrest : ∀ c, rest.head? = some c → isWsp c = false) :
    parseParam (quotedParam name value ++ rest) = some ((name, value), rest) := by
  obtain ⟨c, name', rfl⟩ := List.exists_cons_of_ne_nil hne
  have hc : isWsp c = false := isWsp_of_isTokenChar (hname c List.mem_cons_self)
  -- `;`, the space, the name, `=`, and the quoted value
  have hspaces : skipOptionalSpaces (c :: name' ++ 61 :: 34 :: (quoteEscape value ++ 34 :: rest)) =
      c :: name' ++ 61 :: 34 :: (quoteEscape value ++ 34 :: rest) :=
    skipOptionalSpaces_of_head (by intro d hd; cases hd; exact hc)
  have htoken : readToken (c :: name' ++ 61 :: 34 :: (quoteEscape value ++ 34 :: rest)) =
      (c :: name', 61 :: 34 :: (quoteEscape value ++ 34 :: rest)) :=
    readToken_append hname (by intro d hd; cases hd; decide)
  have hequals : skipOptionalSpaces (61 :: 34 :: (quoteEscape value ++ 34 :: rest)) =
      61 :: 34 :: (quoteEscape value ++ 34 :: rest) :=
    skipOptionalSpaces_of_head (by intro d hd; cases hd; decide)
  have hvalue : parseHeaderParamValue (34 :: (quoteEscape value ++ 34 :: rest)) =
      some (value, rest) := by
    simp [parseHeaderParamValue, skipOptionalSpaces, isWsp, readQuoted_quoteEscape]
  rw [quotedParam_append, parseParam, skipSymbol_eq_some.2 rfl]
  simp only [Option.bind_eq_bind, Option.bind_some]
  rw [skipOptionalSpaces_cons_space, hspaces, htoken]
  dsimp only
  rw [if_neg (by simp), hequals, skipSymbol_eq_some.2 rfl]
  simp only [Option.bind_some, hvalue]
  rw [skipOptionalSpaces_of_head hrest]
  rfl

theorem head_flatMap_quotedParam (params : List (List UInt8 × List UInt8)) :
    ∀ c, (params.flatMap fun q => quotedParam q.1 q.2).head? = some c → c = 59 := by
  intro c hc
  cases params with
  | nil => cases hc
  | cons q params =>
    rw [List.flatMap_cons, quotedParam_append] at hc
    cases hc
    rfl

/-- The parameter loop reads back quoted parameters with non-empty token names, in order. -/
theorem parseParams_quotedParams (params : List (List UInt8 × List UInt8))
    (hnames : ∀ q ∈ params, q.1 ≠ [] ∧ ∀ c ∈ q.1, isTokenChar c) :
    parseParams (params.flatMap fun q => quotedParam q.1 q.2) = some params := by
  -- the loop from any accumulated list, by induction on the parameters still to read
  suffices h : ∀ acc, Loop.run paramsStep (fun _ => none)
      ((params.flatMap fun q => quotedParam q.1 q.2).length + 1)
      (acc, params.flatMap fun q => quotedParam q.1 q.2) = some (acc ++ params) from h []
  induction params with
  | nil =>
    intro acc
    rw [Loop.run_of_inl (by rfl), List.append_nil]
  | cons q params ih =>
    intro acc
    obtain ⟨hne, htoken⟩ := hnames q List.mem_cons_self
    have hparam := @parseParam_quotedParam q.1 q.2 _ htoken hne
      (fun c hc => by rw [head_flatMap_quotedParam params c hc]; rfl)
    have hstep : paramsStep (acc, (q :: params).flatMap fun q => quotedParam q.1 q.2) =
        .inr (acc ++ [q], params.flatMap fun q => quotedParam q.1 q.2) := by
      rw [paramsStep, List.flatMap_cons, if_neg (by simp [quotedParam_append]), hparam]
    rw [Loop.run_of_inr paramsStep_decreasing hstep (by simp), ih (fun q hq => hnames q
      (List.mem_cons_of_mem _ hq)), List.append_assoc, List.singleton_append]

theorem tokenChars_name : ∀ c ∈ ascii "name", isTokenChar c :=
  List.all_eq_true.1 (by decide)

theorem tokenChars_filename : ∀ c ∈ ascii "filename", isTokenChar c :=
  List.all_eq_true.1 (by decide)

theorem tokenChars_formData : ∀ c ∈ ascii "form-data", isTokenChar c :=
  List.all_eq_true.1 (by decide)

theorem iEquals_of_length_ne {l r : List UInt8} (h : l.length ≠ r.length) : iEquals l r = false := by
  rw [iEquals, Bool.eq_false_iff]
  intro heq
  rw [Headers.strIcaseEqual_iff] at heq
  exact h (by simpa using congrArg List.length heq)

theorem iEquals_self (l : List UInt8) : iEquals l l = true :=
  Headers.strIcaseEqual_refl l

/-- `ParseContentDisposition` reads a part's `Content-Disposition` back: its name, and its
filename when it has one. -/
theorem parseContentDisposition_contentDisposition (p : FormDataPart) (hname : p.name ≠ [])
    (info : FormDataArgInfo) :
    parseContentDisposition p.contentDisposition info =
      some ⟨p.name, { info.arg with filename := p.filename.or info.arg.filename }⟩ := by
  -- the parameters of the value, and what folding them into the info gives
  obtain ⟨params, hcd, hnames, hfold⟩ : ∃ params : List (List UInt8 × List UInt8),
      p.contentDisposition = ascii "form-data" ++ params.flatMap (fun q => quotedParam q.1 q.2) ∧
      (∀ q ∈ params, q.1 ≠ [] ∧ ∀ c ∈ q.1, isTokenChar c) ∧
      params.foldl (fun info q =>
        if iEquals q.1 (ascii "name") then { info with name := q.2 }
        else if iEquals q.1 (ascii "filename") then { info with arg.filename := some q.2 }
        else info) info =
        ⟨p.name, { info.arg with filename := p.filename.or info.arg.filename }⟩ := by
    cases hf : p.filename with
    | none =>
      refine ⟨[(ascii "name", p.name)], by simp [FormDataPart.contentDisposition, hf], ?_, ?_⟩
      · intro q hq
        rw [List.mem_singleton] at hq
        subst hq
        exact ⟨List.cons_ne_nil _ _, tokenChars_name⟩
      simp [iEquals_self]
    | some filename =>
      refine ⟨[(ascii "name", p.name), (ascii "filename", filename)],
        by simp [FormDataPart.contentDisposition, hf], ?_, ?_⟩
      · intro q hq
        rcases List.mem_pair.1 hq with rfl | rfl
        · exact ⟨List.cons_ne_nil _ _, tokenChars_name⟩
        · exact ⟨List.cons_ne_nil _ _, tokenChars_filename⟩
      have hne : iEquals (ascii "filename") (ascii "name") = false :=
        iEquals_of_length_ne (by decide)
      simp [hne, iEquals_self]
  have hhead := head_flatMap_quotedParam params
  have htoken := readToken_append tokenChars_formData
    (fun c hc => by rw [hhead c hc]; rfl)
  have hspaces := skipOptionalSpaces_of_head (fun c hc => by rw [hhead c hc]; rfl)
  rw [hcd, parseContentDisposition, htoken]
  dsimp only
  rw [iEquals_self, Bool.not_true, if_neg Bool.false_ne_true, hspaces,
    parseParams_quotedParams params hnames]
  simp only [Option.bind_eq_bind, Option.bind_some]
  rw [hfold, if_neg (by simpa using hname)]
  rfl

theorem isFieldValueChar_of_isTokenChar {c : UInt8} (h : isTokenChar c) : isFieldValueChar c := by
  simp only [isTokenChar, Bool.and_eq_true, decide_eq_true_eq] at h
  simp only [isFieldValueChar, Bool.or_eq_true, decide_eq_true_eq, Bool.and_eq_true]
  refine .inr ⟨UInt8.le_trans (by decide : (32 : UInt8) ≤ 33) h.1.1, ?_⟩
  rintro rfl
  exact absurd h.1.2 (by decide)

theorem headersStep_line {name value : List UInt8} (info : FormDataArgInfo) (rest : List UInt8)
    (hname : ∀ c ∈ name, isTokenChar c) (hne : name ≠ [])
    (hvalue : ∀ c ∈ value, isFieldValueChar c) :
    headersStep kCrLf (name ++ 58 :: (value ++ kCrLf ++ rest), info) =
      match processMultipartFormDataHeader name (trimOws value) info with
      | none => .inl none
      | some info => .inr (rest, info) := by
  obtain ⟨c, name', rfl⟩ := List.exists_cons_of_ne_nil hne
  have hc : c ≠ kCr := by
    rintro rfl
    exact absurd (hname kCr List.mem_cons_self) (by decide)
  have hprefix : kCrLf.isPrefixOf (c :: name' ++ 58 :: (value ++ kCrLf ++ rest)) = false := by
    simp [kCrLf, List.isPrefixOf, Ne.symm hc]
  have htoken : readToken (c :: name' ++ 58 :: (value ++ kCrLf ++ rest)) =
      (c :: name', 58 :: (value ++ kCrLf ++ rest)) :=
    readToken_append hname (by intro d hd; cases hd; decide)
  have hread : readHeaderValue (value ++ kCrLf ++ rest) = (trimOws value, kCrLf ++ rest) := by
    rw [List.append_assoc]
    exact readHeaderValue_append hvalue (by intro d hd; cases hd; decide)
  rw [headersStep, if_neg (by simp), hprefix, if_neg Bool.false_ne_true, htoken]
  dsimp only
  rw [if_neg (by simp), skipSymbol_eq_some.2 rfl]
  dsimp only
  rw [hread]
  dsimp only
  -- split on the header's result first: the two sides use different matchers on it
  cases processMultipartFormDataHeader (c :: name') (trimOws value) info <;>
    simp only [skipCrLf_eq_some.2 rfl]

theorem headersStep_crlf (rest : List UInt8) (info : FormDataArgInfo) :
    headersStep kCrLf (kCrLf ++ rest, info) = .inl (some (rest, info)) := by
  rw [headersStep, if_neg (by simp [kCrLf]), if_pos (by simp [kCrLf, List.isPrefixOf]),
    skipCrLf_eq_some.2 rfl]
  rfl


theorem trimOws_cons_of_isWsp {c : UInt8} (hc : isWsp c) (s : List UInt8) :
    trimOws (c :: s) = trimOws s := by
  simp [trimOws, hc]

/-- `TrimOws` keeps a string that neither starts nor ends with a space or a tab. -/
theorem trimOws_eq_self {s : List UInt8} (hhead : ∀ c, s.head? = some c → isWsp c = false)
    (hlast : ∀ c, s.getLast? = some c → isWsp c = false) : trimOws s = s := by
  have hfront : s.dropWhile isWsp = s := skipOptionalSpaces_of_head hhead
  have hback : s.reverse.dropWhile isWsp = s.reverse :=
    skipOptionalSpaces_of_head (fun c hc => hlast c (by rwa [List.head?_reverse] at hc))
  rw [trimOws, hfront, hback, List.reverse_reverse]

theorem quotedParam_eq_concat (name value : List UInt8) :
    quotedParam name value = ascii "; " ++ name ++ ascii "=\"" ++ quoteEscape value ++ [34] :=
  rfl

theorem head?_contentDisposition (p : FormDataPart) : p.contentDisposition.head? = some 102 := by
  rw [FormDataPart.contentDisposition, show ascii "form-data" = 102 :: ascii "orm-data" from rfl]
  rfl

theorem getLast?_contentDisposition (p : FormDataPart) :
    p.contentDisposition.getLast? = some 34 := by
  unfold FormDataPart.contentDisposition
  cases p.filename with
  | none => rw [List.append_nil, quotedParam_eq_concat, ← List.append_assoc, List.getLast?_concat]
  | some filename =>
    dsimp only
    rw [quotedParam_eq_concat (ascii "filename"), ← List.append_assoc, List.getLast?_concat]

theorem mem_quoteEscape {c : UInt8} {s : List UInt8} (h : c ∈ quoteEscape s) : c = 92 ∨ c ∈ s := by
  obtain ⟨d, hd, hc⟩ := List.mem_flatMap.1 h
  split at hc
  · rcases List.mem_pair.1 hc with rfl | rfl
    · exact .inl rfl
    · exact .inr hd
  · rw [List.mem_singleton.1 hc]
    exact .inr hd

theorem fieldValue_quotedParam {name value : List UInt8} (hname : ∀ c ∈ name, isTokenChar c)
    (hvalue : ∀ c ∈ value, isFieldValueChar c) : ∀ c ∈ quotedParam name value, isFieldValueChar c := by
  intro c hc
  rw [← List.append_nil (quotedParam name value), quotedParam_append] at hc
  simp only [List.mem_cons, List.mem_append] at hc
  rcases hc with rfl | rfl | hc | rfl | rfl | hc | rfl | hc
  · rfl
  · rfl
  · exact isFieldValueChar_of_isTokenChar (hname c hc)
  · rfl
  · rfl
  · rcases mem_quoteEscape hc with rfl | hc
    · rfl
    · exact hvalue c hc
  · rfl
  · cases hc


theorem fieldValue_contentDisposition {p : FormDataPart}
    (hname : ∀ c ∈ p.name, isFieldValueChar c)
    (hfilename : ∀ filename, p.filename = some filename → ∀ c ∈ filename, isFieldValueChar c) :
    ∀ c ∈ p.contentDisposition, isFieldValueChar c := by
  intro c hc
  unfold FormDataPart.contentDisposition at hc
  rw [List.mem_append, List.mem_append] at hc
  rcases hc with (hc | hc) | hc
  · exact isFieldValueChar_of_isTokenChar (tokenChars_formData c hc)
  · exact fieldValue_quotedParam tokenChars_name hname c hc
  · cases hf : p.filename with
    | none =>
      rw [hf] at hc
      cases hc
    | some filename =>
      rw [hf] at hc
      exact fieldValue_quotedParam tokenChars_filename (hfilename filename hf) c hc

theorem processMultipartFormDataHeader_contentDisposition (value : List UInt8)
    (info : FormDataArgInfo) :
    processMultipartFormDataHeader (ascii "Content-Disposition") value info =
      parseContentDisposition value { info with arg.contentDisposition := value } := by
  rw [processMultipartFormDataHeader, if_pos (iEquals_self _)]

theorem processMultipartFormDataHeader_contentType (value : List UInt8) (info : FormDataArgInfo) :
    processMultipartFormDataHeader (ascii "Content-Type") value info =
      some { info with arg.contentType := some value } := by
  have hne : iEquals (ascii "Content-Type") (ascii "Content-Disposition") = false :=
    iEquals_of_length_ne (by decide)
  rw [processMultipartFormDataHeader, hne, if_neg Bool.false_ne_true, if_pos (iEquals_self _)]

theorem tokenChars_contentDisposition : ∀ c ∈ ascii "Content-Disposition", isTokenChar c :=
  List.all_eq_true.1 (by decide)

theorem tokenChars_contentType : ∀ c ∈ ascii "Content-Type", isTokenChar c :=
  List.all_eq_true.1 (by decide)

/-- The header loop reads a part's headers back, up to the empty line after them. -/
theorem parseMultipartFormDataHeaders_headers {boundary : List UInt8} {p : FormDataPart}
    (hp : p.Readable boundary) (rest : List UInt8) :
    parseMultipartFormDataHeaders (p.headers ++ kCrLf ++ rest) FormDataArgInfo.empty kCrLf =
      some (rest, ⟨p.name, { p.toArg with value := [] }⟩) := by
  have htrim : trimOws (32 :: p.contentDisposition) = p.contentDisposition := by
    rw [trimOws_cons_of_isWsp rfl]
    refine trimOws_eq_self (fun c hc => ?_) (fun c hc => ?_)
    · rw [head?_contentDisposition] at hc
      cases hc
      rfl
    · rw [getLast?_contentDisposition] at hc
      cases hc
      rfl
  have hvalue : ∀ c ∈ 32 :: p.contentDisposition, isFieldValueChar c := by
    intro c hc
    rcases List.mem_cons.1 hc with rfl | hc
    · rfl
    · exact fieldValue_contentDisposition hp.name_fieldValue hp.filename_fieldValue c hc
  -- the `Content-Disposition` line gives the name and the filename
  have hcd : ∀ rest', headersStep kCrLf
      (ascii "Content-Disposition" ++ 58 :: (32 :: p.contentDisposition ++ kCrLf ++ rest'),
        FormDataArgInfo.empty) =
      .inr (rest', ⟨p.name, ⟨[], p.contentDisposition, p.filename, none, none⟩⟩) := by
    intro rest'
    rw [headersStep_line _ rest' tokenChars_contentDisposition (by simp [ascii]) hvalue, htrim,
      processMultipartFormDataHeader_contentDisposition,
      parseContentDisposition_contentDisposition p hp.name_ne_nil]
    simp [FormDataArgInfo.empty]
  unfold parseMultipartFormDataHeaders
  cases hct : p.contentType with
  | none =>
    have hlines : p.headers ++ kCrLf ++ rest =
        ascii "Content-Disposition" ++ 58 :: (32 :: p.contentDisposition ++ kCrLf ++ (kCrLf ++ rest)) := by
      simp [FormDataPart.headers, hct, show ascii "Content-Disposition: " =
        ascii "Content-Disposition" ++ [58, 32] from rfl]
    rw [hlines, Loop.run_of_inr (headersStep_decreasing kCrLf) (hcd _) (by simp),
      Loop.run_of_inl (headersStep_crlf rest _)]
    simp [FormDataPart.toArg, hct]
  | some contentType =>
    obtain ⟨hfield, htrimmed⟩ := hp.contentType_fieldValue contentType hct
    have hlines : p.headers ++ kCrLf ++ rest =
        ascii "Content-Disposition" ++ 58 :: (32 :: p.contentDisposition ++ kCrLf ++
          (ascii "Content-Type" ++ 58 :: (32 :: contentType ++ kCrLf ++ (kCrLf ++ rest)))) := by
      simp [FormDataPart.headers, hct, show ascii "Content-Disposition: " =
        ascii "Content-Disposition" ++ [58, 32] from rfl, show ascii "Content-Type: " =
        ascii "Content-Type" ++ [58, 32] from rfl]
    -- the `Content-Type` line gives the content type, as `TrimOws` keeps it
    have hvalueT : ∀ c ∈ 32 :: contentType, isFieldValueChar c := by
      intro c hc
      rcases List.mem_cons.1 hc with rfl | hc
      · rfl
      · exact hfield c hc
    have hline := headersStep_line ⟨p.name, ⟨[], p.contentDisposition, p.filename, none, none⟩⟩
      (kCrLf ++ rest) tokenChars_contentType (by simp [ascii]) hvalueT
    rw [trimOws_cons_of_isWsp rfl, htrimmed, processMultipartFormDataHeader_contentType] at hline
    rw [hlines, Loop.run_of_inr (headersStep_decreasing kCrLf) (hcd _) (by simp),
      Loop.run_of_inr (headersStep_decreasing kCrLf) hline (by simp),
      Loop.run_of_inl (headersStep_crlf rest _)]
    simp [FormDataPart.toArg, hct]
theorem cr_not_mem_of_tokenChars {boundary : List UInt8} (hb : ∀ c ∈ boundary, isTokenChar c) :
    kCr ∉ [kLf] ++ [45, 45] ++ boundary := by
  intro h
  simp only [List.mem_append, List.mem_cons, List.not_mem_nil, or_false] at h
  rcases h with (h | h | h) | h
  · exact absurd h (by decide)
  · exact absurd h (by decide)
  · exact absurd h (by decide)
  · exact absurd (hb kCr h) (by decide)

theorem length_delimiter (crlf boundary : List UInt8) :
    (delimiter crlf boundary).length = crlf.length + 2 + boundary.length := by
  simp only [delimiter, List.length_append, List.length_cons, List.length_nil]

/-- `ParseMultipartFormDataValue` reads a part's value up to the delimiter after it, and adds the
part to the arguments, or takes its value as the charset. -/
theorem parseMultipartFormDataValue_encode {boundary more : List UInt8} {p : FormDataPart}
    (hb : ∀ c ∈ boundary, isTokenChar c) (hp : p.Readable boundary)
    (hmore : ∀ c, more.head? = some c → isWsp c = false) (s : Option (List UInt8) × FormDataArgs) :
    parseMultipartFormDataValue (p.value ++ delimiter kCrLf boundary ++ more) boundary
        ⟨p.name, { p.toArg with value := [] }⟩ s.1 s.2 kCrLf = some (more, addPart s p) := by
  have hcd : p.contentDisposition ≠ [] := by
    intro h
    have hhead := head?_contentDisposition p
    rw [h] at hhead
    cases hhead
  have hfind : findBoundaryEnd (p.value ++ delimiter kCrLf boundary ++ more) boundary kCrLf =
      some (p.value.length + (delimiter kCrLf boundary).length) :=
    findBoundaryEnd_append rfl (cr_not_mem_of_tokenChars hb) hp.value_delimiter
  -- the value ends where the delimiter starts
  have hidx : p.value.length + (delimiter kCrLf boundary).length - boundary.length - 2 -
      kCrLf.length = p.value.length := by
    rw [length_delimiter]
    omega
  have hvalue : (p.value ++ delimiter kCrLf boundary ++ more).take p.value.length = p.value := by
    rw [List.append_assoc, List.take_left' rfl]
  have hrest : (p.value ++ delimiter kCrLf boundary ++ more).drop
      (p.value.length + (delimiter kCrLf boundary).length) = more := by
    exact List.drop_left' List.length_append
  unfold parseMultipartFormDataValue
  rw [if_neg (by simpa [FormDataPart.toArg] using hcd), hfind]
  dsimp only
  rw [hidx, hvalue, hrest, skipOptionalSpaces_of_head hmore]
  unfold addPart
  split
  · rfl
  · rfl


/-- One iteration of the parts loop reads a part and the line break before it. -/
theorem partsStep_encode {boundary more : List UInt8} {p : FormDataPart}
    (hb : ∀ c ∈ boundary, isTokenChar c) (hp : p.Readable boundary)
    (hmore : ∀ c, more.head? = some c → isWsp c = false) (s : Option (List UInt8) × FormDataArgs) :
    partsStep boundary kCrLf (kCrLf ++ p.encode boundary ++ more, s) = .inr (more, addPart s p) := by
  have hbody : kCrLf ++ p.encode boundary ++ more =
      13 :: 10 :: (p.headers ++ kCrLf ++ (p.value ++ delimiter kCrLf boundary ++ more)) := by
    simp [kCrLf, kCr, kLf, FormDataPart.encode]
  have hskip : skipCrLf (13 :: 10 :: (p.headers ++ kCrLf ++
      (p.value ++ delimiter kCrLf boundary ++ more))) kCrLf =
      some (p.headers ++ kCrLf ++ (p.value ++ delimiter kCrLf boundary ++ more)) :=
    skipCrLf_eq_some.2 rfl
  rw [hbody, partsStep]
  dsimp only
  rw [if_neg (by decide), hskip]
  dsimp only
  rw [parseMultipartFormDataHeaders_headers hp]
  dsimp only
  rw [parseMultipartFormDataValue_encode hb hp hmore s]

/-- `--` and a line break end the parts loop, which sets the default charset. -/
theorem partsStep_end (boundary : List UInt8) (s : Option (List UInt8) × FormDataArgs) :
    partsStep boundary kCrLf (ascii "--" ++ kCrLf, s) = .inl (some (setDefaultCharset s.1 s.2)) := by
  rfl

theorem head?_partsText (boundary : List UInt8) (parts : List FormDataPart) :
    ∀ c, ((parts.flatMap fun p => kCrLf ++ p.encode boundary) ++ ascii "--" ++ kCrLf).head? =
      some c → isWsp c = false := by
  intro c hc
  cases parts with
  | nil =>
    cases hc
    rfl
  | cons p parts =>
    simp only [List.flatMap_cons, List.append_assoc, kCrLf, List.cons_append, List.head?_cons,
      Option.some.injEq] at hc
    subst hc
    rfl

/-- The parts loop reads every part of the text an encoder writes, from any charset and
arguments: the run lemma, by induction on the parts, of `partsStep_encode`. -/
theorem run_partsStep_encode {boundary : List UInt8} (hb : ∀ c ∈ boundary, isTokenChar c)
    (parts : List FormDataPart) (hparts : ∀ p ∈ parts, p.Readable boundary)
    (s : Option (List UInt8) × FormDataArgs) (fuel : Nat)
    (hfuel : ((parts.flatMap fun p => kCrLf ++ p.encode boundary) ++ ascii "--" ++ kCrLf).length <
      fuel) :
    Loop.run (partsStep boundary kCrLf) (fun _ => none) fuel
        ((parts.flatMap fun p => kCrLf ++ p.encode boundary) ++ ascii "--" ++ kCrLf, s) =
      some (setDefaultCharset (parts.foldl addPart s).1 (parts.foldl addPart s).2) := by
  induction parts generalizing s fuel with
  | nil =>
    obtain ⟨fuel, rfl⟩ : ∃ f, fuel = f + 1 := ⟨fuel - 1, by omega⟩
    exact Loop.run_of_inl (partsStep_end boundary s) fuel
  | cons p parts ih =>
    obtain ⟨fuel, rfl⟩ : ∃ f, fuel = f + 1 := ⟨fuel - 1, by omega⟩
    have hp := hparts p List.mem_cons_self
    have htext : (p :: parts).flatMap (fun p => kCrLf ++ p.encode boundary) ++ ascii "--" ++ kCrLf =
        kCrLf ++ p.encode boundary ++
          ((parts.flatMap fun p => kCrLf ++ p.encode boundary) ++ ascii "--" ++ kCrLf) := by
      simp only [List.flatMap_cons, List.append_assoc]
    rw [htext] at hfuel ⊢
    rw [Loop.run_succ, partsStep_encode hb hp (head?_partsText boundary parts) s]
    dsimp only
    rw [List.foldl_cons]
    refine ih (fun q hq => hparts q (List.mem_cons_of_mem _ hq)) _ _ ?_
    have hcrlf : kCrLf.length = 2 := rfl
    simp only [List.length_append] at hfuel ⊢
    omega

end Encoded

end Multipart

end Http

end Userver
