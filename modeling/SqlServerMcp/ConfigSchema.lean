import SqlServerMcp.JsonValue
import SqlServerMcp.Results
import SqlServerMcp.Text

/-!
The server's configuration record and its typed reading from a JSON map. Every
field has a declared kind, the key it is read from and, unless it is required,
a default. Reading is all or nothing: a configuration is obtained exactly when
every field reads, and then it holds what the fields read.
-/
namespace SqlServerMcp.ConfigSchema

open AssocMap FixedWidth JsonValue Results Text

inductive AuthMethod where
  | sqlServer
  | windows
  | azureAd
  deriving DecidableEq

inductive Transport where
  | stdio
  | http
  deriving DecidableEq

def AuthMethod.variants : List (String × AuthMethod) :=
  [("sql_server", .sqlServer), ("windows", .windows), ("azure_ad", .azureAd)]

def Transport.variants : List (String × Transport) := [("stdio", .stdio), ("http", .http)]

def AuthMethod.name : AuthMethod → String
  | .sqlServer => "sql_server"
  | .windows => "windows"
  | .azureAd => "azure_ad"

def Transport.name : Transport → String
  | .stdio => "stdio"
  | .http => "http"

inductive DeError where
  | missingField (name : String)
  | invalidType (unexpected : Json) (expected : String)
  | invalidValue (unexpected : Json) (expected : String)
  | unknownVariant (variant : String) (expected : List String)

/-- The server's own errors: a configuration that does not deserialize, and data
that its schema rejects. -/
inductive McpifyError where
  | configuration (cause : DeError)
  | validation (message : String) (details : List String)

def deserializeString : Json → Except DeError String
  | .str s => .ok s
  | j => .error (.invalidType j "a string")

/-- An optional string also takes `null`. -/
def deserializeOption : Json → Except DeError (Option String)
  | .null => .ok none
  | j => (deserializeString j).map some

def deserializeBool : Json → Except DeError Bool
  | .bool b => .ok b
  | j => .error (.invalidType j "a boolean")

/-- An unsigned field takes a JSON integer within its width and nothing else:
in particular no text. -/
def deserializeInt (expected : String) (hi : ℤ) : Json → Except DeError (RangedInt 0 hi)
  | .num (.int i) =>
    match RangedInt.tryFrom 0 hi i.val with
    | some v => .ok v
    | none => .error (.invalidValue (.num (.int i)) expected)
  | j => .error (.invalidType j expected)

def variantNamed {E : Type} (variants : List (String × E)) (name : String) : Except DeError E :=
  match variants.lookup name with
  | some v => .ok v
  | none => .error (.unknownVariant name (keys variants))

/-- A unit variant is its name, or a map from its name to `null`. -/
def deserializeEnum {E : Type} (variants : List (String × E)) : Json → Except DeError E
  | .str name => variantNamed variants name
  | .obj [(name, value)] => do
    let v ← variantNamed variants name
    match value with
    | .null => .ok v
    | j => .error (.invalidType j "unit")
  | .obj fields => .error (.invalidValue (.obj fields) "map with a single key")
  | j => .error (.invalidType j "string or map")

/-- The declared Rust types of configuration fields. -/
inductive FieldKind where
  | string
  | optionString
  | u16
  | u32
  | u64
  | bool
  | authMethod
  | transport
  deriving DecidableEq

@[reducible] def FieldKind.Value : FieldKind → Type
  | .string => String
  | .optionString => Option String
  | .u16 => U16
  | .u32 => U32
  | .u64 => U64
  | .bool => Bool
  | .authMethod => AuthMethod
  | .transport => Transport

def FieldKind.deserialize : (k : FieldKind) → Json → Except DeError k.Value
  | .string => deserializeString
  | .optionString => deserializeOption
  | .u16 => deserializeInt "u16" (2 ^ 16)
  | .u32 => deserializeInt "u32" (2 ^ 32)
  | .u64 => deserializeInt "u64" (2 ^ 64)
  | .bool => deserializeBool
  | .authMethod => deserializeEnum AuthMethod.variants
  | .transport => deserializeEnum Transport.variants

/-- The plain text of a value; only the absent optional string has none. -/
def FieldKind.plainText : (k : FieldKind) → k.Value → Option String
  | .string, s => some s
  | .optionString, s => s
  | .u16, i => some (toString i.val)
  | .u32, i => some (toString i.val)
  | .u64, i => some (toString i.val)
  | .bool, b => some (if b then "true" else "false")
  | .authMethod, m => some m.name
  | .transport, t => some t.name

/-- The kinds whose values are read from a JSON string. -/
def FieldKind.isText : FieldKind → Bool
  | .string | .optionString | .authMethod | .transport => true
  | .u16 | .u32 | .u64 | .bool => false

theorem AuthMethod.variantNamed_name (m : AuthMethod) :
    variantNamed AuthMethod.variants m.name = .ok m := by
  cases m <;> rfl

theorem Transport.variantNamed_name (t : Transport) :
    variantNamed Transport.variants t.name = .ok t := by
  cases t <;> rfl

/-- A text kind reads every value back from its plain text. -/
theorem FieldKind.deserialize_plainText (k : FieldKind) (hk : k.isText = true) (v : k.Value)
    (text : String) (htext : k.plainText v = some text) : k.deserialize (.str text) = .ok v := by
  cases k with
  | string => exact congrArg Except.ok (Option.some.inj htext).symm
  | optionString => exact congrArg Except.ok htext.symm
  | authMethod =>
    obtain rfl : v.name = text := Option.some.inj htext
    exact AuthMethod.variantNamed_name v
  | transport =>
    obtain rfl : v.name = text := Option.some.inj htext
    exact Transport.variantNamed_name v
  | u16 | u32 | u64 | bool => simp [FieldKind.isText] at hk

/-- The number and boolean kinds read no JSON string at all. -/
theorem FieldKind.deserialize_str_ne_ok (k : FieldKind) (hk : k.isText = false) (text : String)
    (v : k.Value) : k.deserialize (.str text) ≠ .ok v := by
  cases k with
  | u16 | u32 | u64 | bool => exact fun h => by cases h
  | string | optionString | authMethod | transport => simp [FieldKind.isText] at hk

inductive ConfigField where
  | url
  | authMethod
  | sqlPort
  | poolMaxSize
  | trustServerCert
  | apiVersion
  | logLevel
  | rateLimit
  | timeoutMs
  | cacheSize
  | retryAttempts
  | transport
  | host
  | port
  | corsAllow
  | defaultDatabase
  | readOnly
  deriving DecidableEq

namespace ConfigField

def all : List ConfigField :=
  [url, authMethod, sqlPort, poolMaxSize, trustServerCert, apiVersion, logLevel, rateLimit,
   timeoutMs, cacheSize, retryAttempts, transport, host, port, corsAllow, defaultDatabase,
   readOnly]

def key : ConfigField → String
  | url => "url"
  | authMethod => "auth_method"
  | sqlPort => "sql_port"
  | poolMaxSize => "pool_max_size"
  | trustServerCert => "trust_server_cert"
  | apiVersion => "api_version"
  | logLevel => "log_level"
  | rateLimit => "rate_limit"
  | timeoutMs => "timeout_ms"
  | cacheSize => "cache_size"
  | retryAttempts => "retry_attempts"
  | transport => "transport"
  | host => "host"
  | port => "port"
  | corsAllow => "cors_allow"
  | defaultDatabase => "default_database"
  | readOnly => "read_only"

@[reducible] def kind : ConfigField → FieldKind
  | url => .string
  | authMethod => .authMethod
  | sqlPort => .u16
  | poolMaxSize => .u32
  | trustServerCert => .bool
  | apiVersion => .string
  | logLevel => .string
  | rateLimit => .u32
  | timeoutMs => .u64
  | cacheSize => .u32
  | retryAttempts => .u32
  | transport => .transport
  | host => .string
  | port => .u16
  | corsAllow => .optionString
  | defaultDatabase => .optionString
  | readOnly => .bool

end ConfigField

def defaultLogLevel : String := "info"
def defaultRateLimit : U32 := ⟨100, by norm_num, by norm_num⟩
def defaultTimeoutMs : U64 := ⟨30000, by norm_num, by norm_num⟩
def defaultCacheSize : U32 := ⟨500, by norm_num, by norm_num⟩
def defaultRetryAttempts : U32 := ⟨3, by norm_num, by norm_num⟩
def defaultTransport : Transport := .stdio
def defaultHost : String := "127.0.0.1"
def defaultPort : U16 := ⟨3000, by norm_num, by norm_num⟩
def defaultSqlPort : U16 := ⟨1433, by norm_num, by norm_num⟩
def defaultPoolMaxSize : U32 := ⟨10, by norm_num, by norm_num⟩
def defaultTrustServerCert : Bool := true
def defaultReadOnly : Bool := true
def defaultApiVersion : String := "2025"

/-- `none` for the two required fields. -/
def ConfigField.default : (f : ConfigField) → Option f.kind.Value
  | .url => none
  | .authMethod => none
  | .sqlPort => some defaultSqlPort
  | .poolMaxSize => some defaultPoolMaxSize
  | .trustServerCert => some defaultTrustServerCert
  | .apiVersion => some defaultApiVersion
  | .logLevel => some defaultLogLevel
  | .rateLimit => some defaultRateLimit
  | .timeoutMs => some defaultTimeoutMs
  | .cacheSize => some defaultCacheSize
  | .retryAttempts => some defaultRetryAttempts
  | .transport => some defaultTransport
  | .host => some defaultHost
  | .port => some defaultPort
  | .corsAllow => some none
  | .defaultDatabase => some none
  | .readOnly => some defaultReadOnly

structure Config where
  url : String
  authMethod : AuthMethod
  sqlPort : U16
  poolMaxSize : U32
  trustServerCert : Bool
  apiVersion : String
  logLevel : String
  rateLimit : U32
  timeoutMs : U64
  cacheSize : U32
  retryAttempts : U32
  transport : Transport
  host : String
  port : U16
  corsAllow : Option String
  defaultDatabase : Option String
  readOnly : Bool
  deriving DecidableEq

namespace Config

def get (c : Config) : (f : ConfigField) → f.kind.Value
  | .url => c.url
  | .authMethod => c.authMethod
  | .sqlPort => c.sqlPort
  | .poolMaxSize => c.poolMaxSize
  | .trustServerCert => c.trustServerCert
  | .apiVersion => c.apiVersion
  | .logLevel => c.logLevel
  | .rateLimit => c.rateLimit
  | .timeoutMs => c.timeoutMs
  | .cacheSize => c.cacheSize
  | .retryAttempts => c.retryAttempts
  | .transport => c.transport
  | .host => c.host
  | .port => c.port
  | .corsAllow => c.corsAllow
  | .defaultDatabase => c.defaultDatabase
  | .readOnly => c.readOnly

/-- The defaults around the two required fields. -/
def ofRequired (url : String) (authMethod : AuthMethod) : Config where
  url := url
  authMethod := authMethod
  sqlPort := defaultSqlPort
  poolMaxSize := defaultPoolMaxSize
  trustServerCert := defaultTrustServerCert
  apiVersion := defaultApiVersion
  logLevel := defaultLogLevel
  rateLimit := defaultRateLimit
  timeoutMs := defaultTimeoutMs
  cacheSize := defaultCacheSize
  retryAttempts := defaultRetryAttempts
  transport := defaultTransport
  host := defaultHost
  port := defaultPort
  corsAllow := none
  defaultDatabase := none
  readOnly := defaultReadOnly

/-- The host and port of `url`, split at its last colon when what follows is a
port, else the whole of it with `sql_port`. -/
def hostAndPort (c : Config) : String × U16 :=
  match splitLast ':' c.url.toList with
  | some (host, port) =>
    match parseInt 0 (2 ^ 16) port with
    | .ok port => (String.ofList host, port)
    | .error _ => (c.url, c.sqlPort)
  | none => (c.url, c.sqlPort)

end Config

/-- A field present in the map is read by its kind; an absent one takes its
default, if it has one. -/
def ConfigField.read (m : JsonMap) (f : ConfigField) : Except DeError f.kind.Value :=
  match m.get f.key with
  | some j => f.kind.deserialize j
  | none =>
    match f.default with
    | some v => .ok v
    | none => .error (.missingField f.key)

/-- One entry of the map: the value of a field must be of its kind, and a key
that is no field is skipped. -/
def visitEntry (e : String × Json) : Except DeError Unit :=
  match ConfigField.all.find? fun f => f.key = e.1 with
  | some f => (f.kind.deserialize e.2).map fun _ => ()
  | none => .ok ()

/-- The entries are visited in the map's order, then the absent fields take
their defaults. -/
def Config.deserialize (m : JsonMap) : Except DeError Config := do
  m.entries.forM visitEntry
  let url ← ConfigField.read m .url
  let authMethod ← ConfigField.read m .authMethod
  let sqlPort ← ConfigField.read m .sqlPort
  let poolMaxSize ← ConfigField.read m .poolMaxSize
  let trustServerCert ← ConfigField.read m .trustServerCert
  let apiVersion ← ConfigField.read m .apiVersion
  let logLevel ← ConfigField.read m .logLevel
  let rateLimit ← ConfigField.read m .rateLimit
  let timeoutMs ← ConfigField.read m .timeoutMs
  let cacheSize ← ConfigField.read m .cacheSize
  let retryAttempts ← ConfigField.read m .retryAttempts
  let transport ← ConfigField.read m .transport
  let host ← ConfigField.read m .host
  let port ← ConfigField.read m .port
  let corsAllow ← ConfigField.read m .corsAllow
  let defaultDatabase ← ConfigField.read m .defaultDatabase
  let readOnly ← ConfigField.read m .readOnly
  return { url, authMethod, sqlPort, poolMaxSize, trustServerCert, apiVersion, logLevel,
           rateLimit, timeoutMs, cacheSize, retryAttempts, transport, host, port, corsAllow,
           defaultDatabase, readOnly }

/-- No entry stops the visit when every field reads. -/
theorem forM_visitEntry_eq_ok (m : JsonMap) (h : ∀ f : ConfigField, ∃ v, f.read m = .ok v) :
    m.entries.forM visitEntry = .ok () := by
  apply forM_eq_ok
  intro e he
  unfold visitEntry
  cases hfind : ConfigField.all.find? fun f => f.key = e.1 with
  | none => rfl
  | some f =>
    have hkey : f.key = e.1 := by simpa using List.find?_some hfind
    have hget : m.get f.key = some e.2 := by
      rw [hkey]
      exact (lookup_eq_some_iff_mem m.distinct e.1 e.2).mpr he
    obtain ⟨v, hv⟩ := h f
    simp only [ConfigField.read, hget] at hv
    simp only [hv, Except.map]

/-- A configuration is read exactly when each of its fields is. -/
theorem Config.deserialize_eq_ok_iff (m : JsonMap) (c : Config) :
    Config.deserialize m = .ok c ↔ ∀ f : ConfigField, f.read m = .ok (c.get f) := by
  unfold Config.deserialize
  simp only [bind_eq_ok]
  constructor
  · rintro ⟨_, _, url, h1, authMethod, h2, sqlPort, h3, poolMaxSize, h4, trustServerCert, h5,
      apiVersion, h6, logLevel, h7, rateLimit, h8, timeoutMs, h9, cacheSize, h10,
      retryAttempts, h11, transport, h12, host, h13, port, h14, corsAllow, h15,
      defaultDatabase, h16, readOnly, h17, hc⟩
    obtain rfl := Except.ok.inj hc
    intro f
    cases f <;> assumption
  · intro h
    exact ⟨(), forM_visitEntry_eq_ok m fun f => ⟨_, h f⟩, c.url, h .url, c.authMethod,
      h .authMethod, c.sqlPort, h .sqlPort, c.poolMaxSize, h .poolMaxSize, c.trustServerCert,
      h .trustServerCert, c.apiVersion, h .apiVersion, c.logLevel, h .logLevel, c.rateLimit,
      h .rateLimit, c.timeoutMs, h .timeoutMs, c.cacheSize, h .cacheSize, c.retryAttempts,
      h .retryAttempts, c.transport, h .transport, c.host, h .host, c.port, h .port,
      c.corsAllow, h .corsAllow, c.defaultDatabase, h .defaultDatabase, c.readOnly,
      h .readOnly, rfl⟩

/-- When every field reads, the values read make up the configuration. -/
theorem Config.exists_deserialize (m : JsonMap)
    (h : ∀ f : ConfigField, ∃ v, f.read m = .ok v) : ∃ c, Config.deserialize m = .ok c := by
  choose v hv using h
  refine ⟨{ url := v .url, authMethod := v .authMethod, sqlPort := v .sqlPort,
            poolMaxSize := v .poolMaxSize, trustServerCert := v .trustServerCert,
            apiVersion := v .apiVersion, logLevel := v .logLevel, rateLimit := v .rateLimit,
            timeoutMs := v .timeoutMs, cacheSize := v .cacheSize,
            retryAttempts := v .retryAttempts, transport := v .transport, host := v .host,
            port := v .port, corsAllow := v .corsAllow, defaultDatabase := v .defaultDatabase,
            readOnly := v .readOnly }, ?_⟩
  rw [Config.deserialize_eq_ok_iff]
  intro f
  cases f <;> exact hv _

end SqlServerMcp.ConfigSchema
