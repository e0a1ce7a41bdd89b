import Userver.Lib.Codec

/-!
# Member access of a `YamlConfig`

A `yaml_config::YamlConfig` (`yaml_config.cpp`) is a YAML value together with a second YAML
value, the config variables, and a `Mode` that says whether environment variables and files may
be read.  Reading a member by key (`operator[](std::string_view)`) resolves, in this order:

* a value `$name` by the variable `name` of the config variables, and then by that variable's own
  `name#env`, `name#file` and `name#fallback` entries of the config variables;
* a plain value as itself, keeping the config variables and the mode;
* the key's own `key#env` and `key#file` entries, and its `key#fallback` entry when one of those
  is present or a substitution was met (`GetSharpCommandValue`).

A value obtained through a substitution, an environment variable, a file or a fallback comes
back with null config variables and `Mode::kSecure`, so that it cannot be substituted again.
An environment variable is read only when the mode is not `kSecure`, a file only under
`kEnvAndFileAllowed`; otherwise the access throws `std::runtime_error`.

The underlying `formats::yaml::Value` is modelled by `Yaml`, with the checks of its
`operator[]`, `HasMember` and `As<std::string>`; the environment of the process and the files
are a `World`, each entry already parsed.  Paths of values (`CloneWithReplacedPath`, the paths in
the exception texts) and the log line of a fallback are left out.

Reading by index (`operator[](size_t)`) builds its result as `{value, config_vars_}`, whose
mode is the constructor's default `kSecure` (`atIndex_plain`): below an array element an
`#env` key throws where the same key outside an array is read
(`env_key_below_index_rejected`).  What does hold on every path is that the mode never grows:
a `kSecure` config reads nothing of the world, whatever path is followed from it
(`follow_secure_reads_nothing`), and a stripped config stays stripped (`follow_stripped`).
-/

namespace Userver

namespace YamlConfig

/-- A `formats::yaml::Value`: missing (the result of a lookup that found nothing), null, a
scalar, a sequence or a map. -/
inductive Yaml where
  | missing
  | null
  | scalar (value : String)
  | array (items : List Yaml)
  | object (members : List (String × Yaml))
  deriving Repr

/-- The type a `TypeMismatchException` says was expected. -/
inductive ValueType where
  | objectValue
  | arrayValue
  | scalarValue
  deriving DecidableEq, Repr

/-- The exceptions member access throws. -/
inductive YamlError where
  | typeMismatch (expected : ValueType)
  | outOfBounds (index size : Nat)
  | memberMissing
  | runtimeError (what : String)
  deriving DecidableEq, Repr

namespace Yaml

/-- `IsMissing`. -/
def isMissing : Yaml → Bool
  | .missing => true
  | _ => false

/-- `operator[](std::string_view)`: a missing or null value has no members, a map gives the
member or a missing value, anything else throws (`CheckObjectOrNull`). -/
def getKey : Yaml → String → Except YamlError Yaml
  | .missing, _ => pure .missing
  | .null, _ => pure .missing
  | .object members, key => pure ((members.lookup key).getD .missing)
  | _, _ => throw (.typeMismatch .objectValue)

/-- `operator[](size_t)`: `CheckInBounds` throws for a scalar or a map and for an index past
the end, a null value being an empty sequence. -/
def getIndex : Yaml → Nat → Except YamlError Yaml
  | .missing, _ => pure .missing
  | .null, index => throw (.outOfBounds index 0)
  | .array items, index =>
    match items[index]? with
    | some item => pure item
    | none => throw (.outOfBounds index items.length)
  | _, _ => throw (.typeMismatch .arrayValue)

/-- `HasMember`. -/
def hasMember : Yaml → String → Except YamlError Bool
  | .missing, _ => pure false
  | .null, _ => pure false
  | .object members, key => pure (members.lookup key).isSome
  | _, _ => throw (.typeMismatch .objectValue)

/-- `As<std::string>`: `CheckNotMissing`, then `CheckString`. -/
def asString : Yaml → Except YamlError String
  | .missing => throw .memberMissing
  | .scalar value => pure value
  | _ => throw (.typeMismatch .scalarValue)

end Yaml

/-- `YamlConfig::Mode`. -/
inductive Mode where
  | kSecure
  | kEnvAllowed
  | kEnvAndFileAllowed
  deriving DecidableEq, Repr

end YamlConfig

/-- A `YamlConfig`: the value, the config variables and the mode. -/
structure YamlConfig where
  yaml : YamlConfig.Yaml
  configVars : YamlConfig.Yaml
  mode : YamlConfig.Mode
  deriving Repr

namespace YamlConfig

/-- What the process can read: its environment variables (`std::getenv`, then
`formats::yaml::FromString`) and its files (`boost::filesystem::exists`, then
`formats::yaml::blocking::FromFile`). -/
structure World where
  getenv : String → Option Yaml
  readFile : String → Option Yaml

/-- The config a substitution, an environment variable, a file or a fallback gives: the
config variables are stripped off "to disallow nested substitutions". -/
def stripped (yaml : Yaml) : YamlConfig := ⟨yaml, .null, .kSecure⟩

/-- The configs `stripped` builds. -/
def Stripped (c : YamlConfig) : Prop := c.configVars = .null ∧ c.mode = .kSecure

/-- `MakeMissingConfig`: a missing value with null config variables and the default mode. -/
def makeMissingConfig : YamlConfig := ⟨.missing, .null, .kSecure⟩

/-- `IsSubstitution`: a scalar that starts with `'$'`. -/
def isSubstitution : Yaml → Bool
  | .scalar value => value.toList.head? == some '$'
  | _ => false

/-- `GetSubstitutionVarName`. -/
def getSubstitutionVarName (value : Yaml) : Except YamlError String :=
  (fun s => String.ofList (s.toList.drop 1)) <$> value.asString

/-- `GetEnvName`. -/
def getEnvName (key : String) : String := key ++ "#env"

/-- `GetFileName`. -/
def getFileName (key : String) : String := key ++ "#file"

/-- `GetFallbackName`. -/
def getFallbackName (key : String) : String := key ++ "#fallback"

/-- `utils::text::EndsWith`. -/
def endsWith (str suffix : String) : Bool := suffix.toList.isSuffixOf str.toList

/-- `AssertEnvMode`. -/
def assertEnvMode (mode : Mode) : Except YamlError Unit :=
  if mode = .kSecure then
    throw (.runtimeError ("YamlConfig was not constructed with Mode::kEnvAllowed or " ++
      "Mode::kEnvAndFileAllowed but an attempt to read an environment variable was made"))
  else pure ()

/-- `AssertFileMode`. -/
def assertFileMode (mode : Mode) : Except YamlError Unit :=
  if mode ≠ .kEnvAndFileAllowed then
    throw (.runtimeError ("YamlConfig was not constructed with Mode::kEnvAndFileAllowed " ++
      "but an attempt to read a file was made"))
  else pure ()

variable (w : World)

/-- `GetFromEnvImpl`. -/
def getFromEnvImpl (envName : Yaml) (mode : Mode) : Except YamlError (Option Yaml) :=
  if envName.isMissing then pure none
  else do
    assertEnvMode mode
    let name ← envName.asString
    pure (w.getenv name)

/-- `GetFromFileImpl`. -/
def getFromFileImpl (fileName : Yaml) (mode : Mode) : Except YamlError (Option Yaml) :=
  if fileName.isMissing then pure none
  else do
    assertFileMode mode
    let name ← fileName.asString
    pure (w.readFile name)

/-- `GetSharpCommandValue`: the `#env` entry of `key`, then its `#file` entry, then its
`#fallback` entry if one of the two is present or a substitution was met. -/
def getSharpCommandValue (yaml : Yaml) (mode : Mode) (key : String) (metSubstitution : Bool) :
    Except YamlError (Option YamlConfig) := do
  let envName ← yaml.getKey (getEnvName key)
  match ← getFromEnvImpl w envName mode with
  | some envValue => pure (some (stripped envValue))
  | none =>
    let fileName ← yaml.getKey (getFileName key)
    match ← getFromFileImpl w fileName mode with
    | some fileValue => pure (some (stripped fileValue))
    | none =>
      if metSubstitution || !envName.isMissing || !fileName.isMissing then
        let fallbackName := getFallbackName key
        if ← yaml.hasMember fallbackName then
          (fun fallback => some (stripped fallback)) <$> yaml.getKey fallbackName
        else pure none
      else pure none

/-- The substitution of a `$name` value, the block `GetYamlConfig` and `operator[](size_t)`
share: the variable `name`, then its `#env`, `#file` and `#fallback` entries among the config
variables. -/
def substituteVar (configVars : Yaml) (mode : Mode) (value : Yaml) :
    Except YamlError (Option YamlConfig) := do
  let varName ← getSubstitutionVarName value
  let varData ← configVars.getKey varName
  if !varData.isMissing then pure (some (stripped varData))
  else
    match ← getSharpCommandValue w configVars mode varName false with
    | some res => pure (some (stripped res.yaml))
    | none => pure none

/-- `GetYamlConfig`. -/
def getYamlConfig (yaml configVars : Yaml) (mode : Mode) (key : String) :
    Except YamlError (Option YamlConfig) := do
  let value ← yaml.getKey key
  let isSubst := isSubstitution value
  let fromVars ← (if isSubst then substituteVar w configVars mode value else pure none :
    Except YamlError (Option YamlConfig))
  match fromVars with
  | some res => pure (some res)
  | none =>
    if !value.isMissing && !isSubst then pure (some ⟨value, configVars, mode⟩)
    else getSharpCommandValue w yaml mode key isSubst

/-- `operator[](std::string_view)`.  A key with a reserved suffix fails a `UASSERT` in a debug
build; a release build goes on with a missing config, as modelled here. -/
def atKey (c : YamlConfig) (key : String) : Except YamlError YamlConfig :=
  if endsWith key "#env" || endsWith key "#file" || endsWith key "#fallback" then
    pure makeMissingConfig
  else (·.getD makeMissingConfig) <$> getYamlConfig w c.yaml c.configVars c.mode key

/-- `operator[](size_t)`.  A plain element is returned as `{value, config_vars_}`, with the
constructor's default mode. -/
def atIndex (c : YamlConfig) (index : Nat) : Except YamlError YamlConfig := do
  let value ← c.yaml.getIndex index
  if isSubstitution value then
    match ← substituteVar w c.configVars c.mode value with
    | some res => pure res
    | none =>
      -- "Avoid parsing $substitution as a string"
      makeMissingConfig.atKey w (← value.asString)
  else pure ⟨value, c.configVars, .kSecure⟩

/-- One step of an access path. -/
inductive Step where
  | key (name : String)
  | index (i : Nat)
  deriving DecidableEq, Repr

/-- The access of one step. -/
def step (c : YamlConfig) : Step → Except YamlError YamlConfig
  | .key name => c.atKey w name
  | .index i => c.atIndex w i

/-- The config at the end of an access path, or the first exception on the way. -/
def follow (c : YamlConfig) (path : List Step) : Except YamlError YamlConfig :=
  path.foldlM (step w) c

/-! ### What one access keeps -/

variable {w}

theorem stripped_stripped (yaml : Yaml) : (stripped yaml).Stripped := ⟨rfl, rfl⟩

theorem stripped_makeMissingConfig : makeMissingConfig.Stripped := ⟨rfl, rfl⟩

theorem getSharpCommandValue_stripped {yaml : Yaml} {mode : Mode} {key : String} {met : Bool}
    {r : Option YamlConfig} (h : getSharpCommandValue w yaml mode key met = .ok r) :
    ∀ c ∈ r, c.Stripped := by
  unfold getSharpCommandValue at h
  obtain ⟨envName, -, h⟩ := Codec.bind_eq_ok.1 h
  obtain ⟨env, -, h⟩ := Codec.bind_eq_ok.1 h
  cases env with
  | some envValue =>
    cases Except.ok.inj h
    simpa using stripped_stripped envValue
  | none =>
    obtain ⟨fileName, -, h⟩ := Codec.bind_eq_ok.1 h
    obtain ⟨file, -, h⟩ := Codec.bind_eq_ok.1 h
    cases file with
    | some fileValue =>
      cases Except.ok.inj h
      simpa using stripped_stripped fileValue
    | none =>
      dsimp only at h
      split_ifs at h
      · obtain ⟨has, -, h⟩ := Codec.bind_eq_ok.1 h
        cases has
        · cases Except.ok.inj h; simp
        · obtain ⟨fallback, -, rfl⟩ := Codec.map_eq_ok.1 h
          simpa using stripped_stripped fallback
      · cases Except.ok.inj h; simp

theorem substituteVar_stripped {vars : Yaml} {mode : Mode} {value : Yaml}
    {r : Option YamlConfig} (h : substituteVar w vars mode value = .ok r) :
    ∀ c ∈ r, c.Stripped := by
  unfold substituteVar at h
  obtain ⟨varName, -, h⟩ := Codec.bind_eq_ok.1 h
  obtain ⟨varData, -, h⟩ := Codec.bind_eq_ok.1 h
  split_ifs at h
  · cases Except.ok.inj h
    simpa using stripped_stripped varData
  · obtain ⟨res, -, h⟩ := Codec.bind_eq_ok.1 h
    cases res with
    | some res =>
      cases Except.ok.inj h
      simpa using stripped_stripped res.yaml
    | none => cases Except.ok.inj h; simp

/-- A member read by key keeps the config variables and the mode of its parent, or is
stripped. -/
theorem getYamlConfig_result {yaml vars : Yaml} {mode : Mode} {key : String}
    {r : Option YamlConfig} (h : getYamlConfig w yaml vars mode key = .ok r) :
    ∀ c ∈ r, (c.configVars = vars ∧ c.mode = mode) ∨ c.Stripped := by
  unfold getYamlConfig at h
  obtain ⟨value, -, h⟩ := Codec.bind_eq_ok.1 h
  obtain ⟨fromVars, hVars, h⟩ := Codec.bind_eq_ok.1 h
  cases fromVars with
  | some res =>
    cases Except.ok.inj h
    -- only a substitution gives a config here
    split_ifs at hVars
    · simpa using Or.inr (substituteVar_stripped hVars res rfl)
    · cases hVars
  | none =>
    dsimp only at h
    split_ifs at h
    · cases Except.ok.inj h; simp
    · intro c hc
      exact Or.inr (getSharpCommandValue_stripped h c hc)

theorem atKey_result {c c' : YamlConfig} {key : String} (h : c.atKey w key = .ok c') :
    (c'.configVars = c.configVars ∧ c'.mode = c.mode) ∨ c'.Stripped := by
  unfold atKey at h
  split_ifs at h
  · cases Except.ok.inj h
    exact Or.inr stripped_makeMissingConfig
  · obtain ⟨r, hr, rfl⟩ := Codec.map_eq_ok.1 h
    cases r with
    | none => exact Or.inr stripped_makeMissingConfig
    | some c' => exact getYamlConfig_result hr c' rfl

/-- Part of what substitutions keep: below a stripped config every member read by key is
stripped too. -/
theorem Stripped.atKey {c c' : YamlConfig} {key : String} (hc : c.Stripped)
    (h : c.atKey w key = .ok c') : c'.Stripped := by
  rcases atKey_result h with ⟨hv, hm⟩ | h'
  · exact ⟨hv.trans hc.1, hm.trans hc.2⟩
  · exact h'

/-- An element read by index keeps the config variables of its parent with the mode `kSecure`,
or is stripped. -/
theorem atIndex_result {c c' : YamlConfig} {i : Nat} (h : c.atIndex w i = .ok c') :
    (c'.configVars = c.configVars ∧ c'.mode = .kSecure) ∨ c'.Stripped := by
  unfold atIndex at h
  obtain ⟨value, -, h⟩ := Codec.bind_eq_ok.1 h
  split_ifs at h
  · obtain ⟨res, hres, h⟩ := Codec.bind_eq_ok.1 h
    cases res with
    | some res =>
      cases Except.ok.inj h
      exact Or.inr (substituteVar_stripped hres c' rfl)
    | none =>
      obtain ⟨name, -, h⟩ := Codec.bind_eq_ok.1 h
      exact Or.inr (stripped_makeMissingConfig.atKey h)
  · cases Except.ok.inj h
    exact Or.inl ⟨rfl, rfl⟩

theorem Stripped.atIndex {c c' : YamlConfig} {i : Nat} (hc : c.Stripped)
    (h : c.atIndex w i = .ok c') : c'.Stripped := by
  rcases atIndex_result h with ⟨hv, hm⟩ | h'
  · exact ⟨hv.trans hc.1, hm⟩
  · exact h'

theorem Stripped.step {c c' : YamlConfig} {s : Step} (hc : c.Stripped)
    (h : c.step w s = .ok c') : c'.Stripped := by
  cases s with
  | key name => exact hc.atKey h
  | index i => exact hc.atIndex h

/-- A step never turns `kSecure` into another mode. -/
theorem step_mode_secure {c c' : YamlConfig} {s : Step} (hc : c.mode = .kSecure)
    (h : c.step w s = .ok c') : c'.mode = .kSecure := by
  cases s with
  | key name =>
    rcases atKey_result h with ⟨-, hm⟩ | h'
    · exact hm.trans hc
    · exact h'.2
  | index i =>
    rcases atIndex_result h with ⟨-, hm⟩ | h'
    · exact hm
    · exact h'.2

/-! ### What a `kSecure` access reads -/

section Secure

variable (w w' : World)

theorem getFromEnvImpl_secure (envName : Yaml) :
    getFromEnvImpl w envName .kSecure = getFromEnvImpl w' envName .kSecure := by
  unfold getFromEnvImpl
  split_ifs <;> rfl

theorem getFromFileImpl_of_ne {mode : Mode} (hmode : mode ≠ .kEnvAndFileAllowed) (fileName : Yaml) :
    getFromFileImpl w fileName mode = getFromFileImpl w' fileName mode := by
  unfold getFromFileImpl assertFileMode
  rw [if_pos hmode]
  split_ifs <;> rfl

theorem getSharpCommandValue_secure (yaml : Yaml) (key : String) (met : Bool) :
    getSharpCommandValue w yaml .kSecure key met = getSharpCommandValue w' yaml .kSecure key met := by
  simp only [getSharpCommandValue, getFromEnvImpl_secure w w',
    getFromFileImpl_of_ne w w' (by decide : Mode.kSecure ≠ .kEnvAndFileAllowed)]

theorem substituteVar_secure (vars value : Yaml) :
    substituteVar w vars .kSecure value = substituteVar w' vars .kSecure value := by
  simp only [substituteVar, getSharpCommandValue_secure w w']

theorem getYamlConfig_secure (yaml vars : Yaml) (key : String) :
    getYamlConfig w yaml vars .kSecure key = getYamlConfig w' yaml vars .kSecure key := by
  simp only [getYamlConfig, substituteVar_secure w w', getSharpCommandValue_secure w w']

variable {w w'}

/-- A member read by key from a `kSecure` config does not depend on the environment or the
files. -/
theorem atKey_secure {c : YamlConfig} (hc : c.mode = .kSecure) (key : String) :
    c.atKey w key = c.atKey w' key := by
  simp only [atKey, hc, getYamlConfig_secure w w']

theorem atIndex_secure {c : YamlConfig} (hc : c.mode = .kSecure) (i : Nat) :
    c.atIndex w i = c.atIndex w' i := by
  have hMissing : ∀ name, makeMissingConfig.atKey w name = makeMissingConfig.atKey w' name :=
    atKey_secure rfl
  simp only [atIndex, hc, substituteVar_secure w w', hMissing]

theorem step_secure {c : YamlConfig} (hc : c.mode = .kSecure) (s : Step) :
    c.step w s = c.step w' s := by
  cases s with
  | key name => exact atKey_secure hc name
  | index i => exact atIndex_secure hc i

end Secure

/-! ### Runs of accesses -/

/-- Every config reached from a stripped one is stripped: no substitution, environment read or
file read is configured below a resolved value. -/
theorem follow_stripped {c c' : YamlConfig} {path : List Step} (hc : c.Stripped)
    (h : c.follow w path = .ok c') : c'.Stripped := by
  induction path generalizing c with
  | nil => cases Except.ok.inj h; exact hc
  | cons s path ih =>
    obtain ⟨c₁, h₁, h⟩ := Codec.bind_eq_ok.1 h
    exact ih (hc.step h₁) h

/-- A `kSecure` config reads nothing of the world along any access path: two worlds give the
same result. -/
theorem follow_secure_reads_nothing (w w' : World) {c : YamlConfig} (path : List Step)
    (hc : c.mode = .kSecure) : c.follow w path = c.follow w' path := by
  induction path generalizing c with
  | nil => rfl
  | cons s path ih =>
    show (c.step w s >>= fun c₁ => c₁.follow w path) = c.step w' s >>= fun c₁ => c₁.follow w' path
    rw [step_secure hc s]
    cases h : c.step w' s with
    | error e => rfl
    | ok c₁ => exact ih (step_mode_secure hc h)

/-! ### The order of resolution -/

/-- A plain element read by index keeps the config variables, but its mode is `kSecure`
whatever the mode of the array. -/
theorem atIndex_plain {c : YamlConfig} {i : Nat} {value : Yaml}
    (hv : c.yaml.getIndex i = .ok value) (hs : isSubstitution value = false) :
    c.atIndex w i = .ok ⟨value, c.configVars, .kSecure⟩ := by
  simp [atIndex, hv, hs, pure, Except.pure]

/-- An `#env` key below an array element of a `kEnvAllowed` config: the element is read with
the mode `kSecure` and the key throws, while the same map that is not an array element gives the
environment variable. -/
theorem env_key_below_index_rejected :
    let world : World :=
      ⟨fun name => if name = "VAR" then some (.scalar "v") else none, fun _ => none⟩
    let element : Yaml := .object [("k#env", .scalar "VAR")]
    let config : YamlConfig := ⟨.array [element], .null, .kEnvAllowed⟩
    config.atIndex world 0 = .ok ⟨element, .null, .kSecure⟩ ∧
      config.follow world [.index 0, .key "k"] = .error (.runtimeError
        ("YamlConfig was not constructed with Mode::kEnvAllowed or " ++
          "Mode::kEnvAndFileAllowed but an attempt to read an environment variable was made")) ∧
      (⟨element, .null, .kEnvAllowed⟩ : YamlConfig).follow world [.key "k"] =
        .ok (stripped (.scalar "v")) :=
  ⟨rfl, rfl, rfl⟩

end YamlConfig

end Userver
