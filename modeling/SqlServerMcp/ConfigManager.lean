import SqlServerMcp.ConfigSchema

/-!
The configuration cascade: command-line flags, environment variables, then the
local, home, system and installation files, merged so that the first layer
with a key decides it. An environment variable arrives as text and, but for
`read_only`, is handed to the typed reading as a JSON string.
-/
namespace SqlServerMcp.ConfigManager

open AssocMap FixedWidth JsonValue ConfigSchema

def envPrefix : String := "SQLSERVER"

/-- Each configuration key with the suffix of its environment variable. -/
def envEntries : List (String × String) :=
  [("url", "URL"),
   ("auth_method", "AUTH_METHOD"),
   ("sql_port", "SQL_PORT"),
   ("pool_max_size", "POOL_MAX_SIZE"),
   ("trust_server_cert", "TRUST_SERVER_CERT"),
   ("api_version", "API_VERSION"),
   ("log_level", "LOG_LEVEL"),
   ("transport", "TRANSPORT"),
   ("host", "HOST"),
   ("cors_allow", "CORS_ALLOW"),
   ("rate_limit", "RATE_LIMIT"),
   ("timeout_ms", "TIMEOUT_MS"),
   ("cache_size", "CACHE_SIZE"),
   ("retry_attempts", "RETRY_ATTEMPTS"),
   ("port", "PORT"),
   ("default_database", "DEFAULT_DATABASE"),
   ("read_only", "READ_ONLY")]

def envName (envSuffix : String) : String := envPrefix ++ "_" ++ envSuffix

def parseBool : String → Option Bool
  | "true" => some true
  | "false" => some false
  | _ => none

/-- The JSON value an environment text stands for. -/
def envValue (configKey value : String) : Json :=
  if configKey = "read_only" then
    match parseBool value with
    | some b => .bool b
    | none => .str value
  else .str value

def envOverride (env : Map String String) (overrides : JsonMap) (entry : String × String) :
    JsonMap :=
  match env.get (envName entry.2) with
  | some value => overrides.insert entry.1 (envValue entry.1 value)
  | none => overrides

def envOverrides (env : Map String String) : JsonMap :=
  envEntries.foldl (envOverride env) Map.empty

/-- What the cascade reads besides the flags: the environment and the contents
of the four configuration files, where they exist. -/
structure Sources where
  env : Map String String
  localFile : Option String
  homeFile : Option String
  systemFile : Option String
  installFile : Option String

section Load

-- The YAML parser's mapping of a text, when the text is one.
variable (yamlMapping : String → Option JsonMap)

def readYamlIfExists (contents : Option String) : JsonMap :=
  match contents.bind yamlMapping with
  | some map => map
  | none => Map.empty

def layers (sources : Sources) (cliFlags : JsonMap) : List JsonMap :=
  [cliFlags,
   envOverrides sources.env,
   readYamlIfExists yamlMapping sources.localFile,
   readYamlIfExists yamlMapping sources.homeFile,
   readYamlIfExists yamlMapping sources.systemFile,
   readYamlIfExists yamlMapping sources.installFile]

def merged (sources : Sources) (cliFlags : JsonMap) : JsonMap :=
  Map.overlay (layers yamlMapping sources cliFlags)

def loadConfig (sources : Sources) (cliFlags : JsonMap) : Except McpifyError Config :=
  match Config.deserialize (merged yamlMapping sources cliFlags) with
  | .ok config => .ok config
  | .error err => .error (.configuration err)

/-- The configuration of the harness server, which passes no flags. -/
def runHarnessServer (sources : Sources) : Except McpifyError Config :=
  loadConfig yamlMapping sources Map.empty

end Load

/-- The environment the `http` subcommand leaves for the harness server. -/
def httpEnv (env : Map String String) (host : Option String) (port : Option U16)
    (corsAllow : Option String) : Map String String :=
  let env := env.insert "SQLSERVER_TRANSPORT" "http"
  let env := match host with
    | some host => env.insert "SQLSERVER_HOST" host
    | none => env
  let env := match port with
    | some port => env.insert "SQLSERVER_PORT" (toString port.val)
    | none => env
  match corsAllow with
  | some corsAllow => env.insert "SQLSERVER_CORS_ALLOW" corsAllow
  | none => env

def commandHttp (yamlMapping : String → Option JsonMap) (sources : Sources)
    (host : Option String) (port : Option U16) (corsAllow : Option String) :
    Except McpifyError Config :=
  runHarnessServer yamlMapping { sources with env := httpEnv sources.env host port corsAllow }

theorem loadConfig_eq_ok_iff (yamlMapping : String → Option JsonMap) (sources : Sources)
    (cliFlags : JsonMap) (c : Config) :
    loadConfig yamlMapping sources cliFlags = .ok c ↔
      ∀ f : ConfigField, f.read (merged yamlMapping sources cliFlags) = .ok (c.get f) := by
  rw [← Config.deserialize_eq_ok_iff]
  unfold loadConfig
  cases Config.deserialize (merged yamlMapping sources cliFlags) <;> simp

/-- An override that is not made for a key leaves it alone. -/
theorem get_foldl_envOverride_of_notMem (env : Map String String) (k : String)
    (entries : List (String × String)) (acc : JsonMap) (h : k ∉ keys entries) :
    (entries.foldl (envOverride env) acc).get k = acc.get k := by
  induction entries generalizing acc with
  | nil => rfl
  | cons e rest ih =>
    simp only [keys_cons, List.mem_cons, not_or] at h
    rw [List.foldl_cons, ih _ h.2]
    unfold envOverride
    split
    · exact Map.get_insert_of_ne _ _ h.1
    · rfl

/-- A variable that is set overrides the key it is listed with. -/
theorem get_foldl_envOverride (env : Map String String) (k suffix value : String)
    (entries : List (String × String)) (acc : JsonMap) (hdistinct : DistinctKeys entries)
    (hmem : (k, suffix) ∈ entries) (hset : env.get (envName suffix) = some value) :
    (entries.foldl (envOverride env) acc).get k = some (envValue k value) := by
  induction entries generalizing acc with
  | nil => contradiction
  | cons e rest ih =>
    have hrest : e.1 ∉ keys rest ∧ DistinctKeys rest := List.nodup_cons.mp hdistinct
    rw [List.foldl_cons]
    rcases List.mem_cons.mp hmem with heq | htail
    · subst heq
      rw [get_foldl_envOverride_of_notMem env k rest _ hrest.1]
      simp only [envOverride, hset, Map.get_insert_self]
    · exact ih _ hrest.2 htail

theorem envEntries_distinctKeys : DistinctKeys envEntries := by decide

theorem envOverrides_get (env : Map String String) (k suffix value : String)
    (hmem : (k, suffix) ∈ envEntries) (hset : env.get (envName suffix) = some value) :
    (envOverrides env).get k = some (envValue k value) :=
  get_foldl_envOverride env k suffix value envEntries Map.empty envEntries_distinctKeys hmem hset

/-- A variable that is set decides its key unless a flag does. -/
theorem merged_get_env (yamlMapping : String → Option JsonMap) (sources : Sources)
    (cliFlags : JsonMap) (k suffix value : String) (hmem : (k, suffix) ∈ envEntries)
    (hflag : cliFlags.get k = none) (hset : sources.env.get (envName suffix) = some value) :
    (merged yamlMapping sources cliFlags).get k = some (envValue k value) := by
  unfold merged
  rw [Map.get_overlay]
  simp only [layers, List.findSome?_cons, hflag,
    envOverrides_get sources.env k suffix value hmem hset]

theorem envValue_of_isText (f : ConfigField) (h : f.kind.isText = true) (value : String) :
    envValue f.key value = .str value := by
  cases f <;> first | rfl | simp [FieldKind.isText] at h

/-- The reading of a field from its environment text returns the value exactly
for the text kinds and for `read_only`. -/
theorem read_env_text_iff (m : JsonMap) (f : ConfigField) (v : f.kind.Value) (text : String)
    (htext : f.kind.plainText v = some text) (hget : m.get f.key = some (envValue f.key text)) :
    f.read m = .ok v ↔ f.kind.isText = true ∨ f = .readOnly := by
  have hread : f.read m = f.kind.deserialize (envValue f.key text) := by
    simp only [ConfigField.read, hget]
  rw [hread]
  by_cases htextKind : f.kind.isText = true
  · rw [envValue_of_isText f htextKind]
    exact iff_of_true (f.kind.deserialize_plainText htextKind v text htext) (Or.inl htextKind)
  · by_cases hreadOnly : f = .readOnly
    · subst hreadOnly
      have hbool : envValue ConfigField.readOnly.key text = .bool v := by
        obtain rfl := Option.some.inj htext
        cases v <;> rfl
      rw [hbool]
      exact iff_of_true rfl (Or.inr rfl)
    · have hstr : envValue f.key text = .str text := by
        cases f <;> first | rfl | contradiction
      rw [hstr]
      have hnot := f.kind.deserialize_str_ne_ok (Bool.not_eq_true _ ▸ htextKind) text v
      exact iff_of_false hnot (by simp [htextKind, hreadOnly])

/-- The variable listed for a field holds the plain text of a value, no flag
sets the field, and every other field reads. -/
structure EnvProvides (yamlMapping : String → Option JsonMap) (sources : Sources)
    (cliFlags : JsonMap) (f : ConfigField) (v : f.kind.Value) : Prop where
  variable_set : ∃ suffix text, (f.key, suffix) ∈ envEntries ∧ f.kind.plainText v = some text ∧
    sources.env.get (envName suffix) = some text
  no_flag : cliFlags.get f.key = none
  others : ∀ g : ConfigField, g ≠ f → ∃ w, g.read (merged yamlMapping sources cliFlags) = .ok w

/-- A field set through its variable reads, or does not, by itself. -/
theorem loadConfig_env_iff_read (yamlMapping : String → Option JsonMap) (sources : Sources)
    (cliFlags : JsonMap) (f : ConfigField) (v : f.kind.Value)
    (h : ∀ g : ConfigField, g ≠ f → ∃ w, g.read (merged yamlMapping sources cliFlags) = .ok w) :
    (∃ c, loadConfig yamlMapping sources cliFlags = .ok c ∧ c.get f = v) ↔
      f.read (merged yamlMapping sources cliFlags) = .ok v := by
  constructor
  · intro hparts
    rcases hparts with ⟨c, hc, rfl⟩
    exact (loadConfig_eq_ok_iff yamlMapping sources cliFlags c).mp hc f
  · intro hread
    have hall : ∀ g : ConfigField, ∃ w, g.read (merged yamlMapping sources cliFlags) = .ok w := by
      intro g
      by_cases hg : g = f
      · subst hg
        exact ⟨v, hread⟩
      · exact h g hg
    obtain ⟨c, hc⟩ := Config.exists_deserialize _ hall
    have hfields := (Config.deserialize_eq_ok_iff _ c).mp hc
    refine ⟨c, (loadConfig_eq_ok_iff yamlMapping sources cliFlags c).mpr hfields, ?_⟩
    exact Except.ok.inj ((hfields f).symm.trans hread)

theorem httpEnv_get_port (env : Map String String) (host : Option String) (port : U16)
    (corsAllow : Option String) :
    (httpEnv env host (some port) corsAllow).get (envName "PORT") = some (toString port.val) := by
  have hname : envName "PORT" = "SQLSERVER_PORT" := by decide
  rw [hname]
  unfold httpEnv
  cases corsAllow with
  | none => exact Map.get_insert_self _ _ _
  | some corsAllow =>
    simp only []
    rw [Map.get_insert_of_ne _ _ (by decide)]
    exact Map.get_insert_self _ _ _

/-- The `http` subcommand with a port never gets a configuration. -/
theorem commandHttp_port_ne_ok (yamlMapping : String → Option JsonMap) (sources : Sources)
    (host : Option String) (port : U16) (corsAllow : Option String) (c : Config) :
    commandHttp yamlMapping sources host (some port) corsAllow ≠ .ok c := by
  intro hok
  have hread := (loadConfig_eq_ok_iff yamlMapping _ _ c).mp hok .port
  have hget := merged_get_env yamlMapping
    { sources with env := httpEnv sources.env host (some port) corsAllow } Map.empty
    "port" "PORT" (toString port.val) (by decide) rfl
    (httpEnv_get_port sources.env host port corsAllow)
  have hvalue : envValue "port" (toString port.val) = .str (toString port.val) := rfl
  have hstr : ConfigField.port.kind.deserialize (.str (toString port.val)) = .ok (c.get .port) := by
    simpa only [ConfigField.read, ConfigField.key, hget, hvalue] using hread
  exact FieldKind.deserialize_str_ne_ok .u16 rfl _ _ hstr

/-- The value of a field reaches the configuration through its environment
variable exactly for the text kinds and for `read_only`; the port of the
`http` subcommand never does. -/
theorem env_value_loaded_iff (yamlMapping : String → Option JsonMap) (sources : Sources) :
    (∀ (cliFlags : JsonMap) (f : ConfigField) (v : f.kind.Value),
      EnvProvides yamlMapping sources cliFlags f v →
      ((∃ c, loadConfig yamlMapping sources cliFlags = .ok c ∧ c.get f = v) ↔
        f.kind.isText = true ∨ f = .readOnly)) ∧
    ∀ (host : Option String) (port : U16) (corsAllow : Option String) (c : Config),
      commandHttp yamlMapping sources host (some port) corsAllow ≠ .ok c := by
  refine ⟨?_, commandHttp_port_ne_ok yamlMapping sources⟩
  intro cliFlags f v h
  obtain ⟨suffix, text, hlisted, htext, hset⟩ := h.variable_set
  have hget := merged_get_env yamlMapping sources cliFlags f.key suffix text hlisted h.no_flag hset
  rw [loadConfig_env_iff_read yamlMapping sources cliFlags f v h.others]
  exact read_env_text_iff _ f v text htext hget

def baseFlags : JsonMap :=
  ⟨[("url", .str "localhost"), ("auth_method", .str "sql_server")], by decide⟩

/-- No configuration file and a single environment variable. -/
def envSources (name value : String) : Sources where
  env := Map.empty.insert name value
  localFile := none
  homeFile := none
  systemFile := none
  installFile := none

theorem readOnly_env_provided :
    EnvProvides (fun _ => none) (envSources "SQLSERVER_READ_ONLY" "false") baseFlags
      .readOnly false where
  variable_set := ⟨"READ_ONLY", "false", by decide, rfl, rfl⟩
  no_flag := rfl
  others := by
    intro g _
    cases g <;> exact ⟨_, rfl⟩

theorem port_env_provided :
    EnvProvides (fun _ => none) (envSources "SQLSERVER_PORT" "8080") baseFlags
      .port ⟨8080, by decide, by decide⟩ where
  variable_set := ⟨"PORT", "8080", by decide, rfl, rfl⟩
  no_flag := rfl
  others := by
    intro g hg
    cases g <;> first | exact ⟨_, rfl⟩ | contradiction

theorem env_value_loaded_readOnly :
    ∃ c, loadConfig (fun _ => none) (envSources "SQLSERVER_READ_ONLY" "false") baseFlags = .ok c ∧
      c.get .readOnly = false :=
  ((env_value_loaded_iff (fun _ => none) (envSources "SQLSERVER_READ_ONLY" "false")).1
    baseFlags .readOnly false readOnly_env_provided).mpr (Or.inr rfl)

/-- With the port 8080 in its variable no configuration is loaded. -/
theorem env_port_not_loaded :
    EnvProvides (fun _ => none) (envSources "SQLSERVER_PORT" "8080") baseFlags
        .port ⟨8080, by decide, by decide⟩ ∧
      ∀ c, loadConfig (fun _ => none) (envSources "SQLSERVER_PORT" "8080") baseFlags ≠ .ok c := by
  refine ⟨port_env_provided, ?_⟩
  intro c hc
  have hread := (loadConfig_eq_ok_iff _ _ _ c).mp hc .port
  exact FieldKind.deserialize_str_ne_ok .u16 rfl "8080" _ hread

/-- The layers merged and read: the part of the load that no longer looks at
where a layer comes from. -/
def loadLayers (stack : List JsonMap) : Except McpifyError Config :=
  match Config.deserialize (Map.overlay stack) with
  | .ok config => .ok config
  | .error err => .error (.configuration err)

theorem loadConfig_eq_loadLayers (yamlMapping : String → Option JsonMap) (sources : Sources)
    (cliFlags : JsonMap) :
    loadConfig yamlMapping sources cliFlags = loadLayers (layers yamlMapping sources cliFlags) :=
  rfl

/-- In a stack of layers from the highest priority down, the highest layer with
the key has the value. -/
def Decides (stack : List JsonMap) (k : String) (v : Json) : Prop :=
  ∃ higher layer lower, stack = higher ++ layer :: lower ∧ layer.get k = some v ∧
    ∀ other ∈ higher, other.get k = none

theorem get_overlay_eq_some_iff (stack : List JsonMap) (k : String) (v : Json) :
    (Map.overlay stack).get k = some v ↔ Decides stack k v := by
  rw [Map.get_overlay, List.findSome?_eq_some_iff]
  rfl

theorem get_overlay_eq_none_iff (stack : List JsonMap) (k : String) :
    (Map.overlay stack).get k = none ↔ ∀ layer ∈ stack, layer.get k = none := by
  rw [Map.get_overlay, List.findSome?_eq_none_iff]

theorem loadLayers_eq_ok_iff (stack : List JsonMap) (c : Config) :
    loadLayers stack = .ok c ↔ ∀ f : ConfigField, f.read (Map.overlay stack) = .ok (c.get f) := by
  rw [← Config.deserialize_eq_ok_iff]
  unfold loadLayers
  cases Config.deserialize (Map.overlay stack) <;> simp

/-- The write safeguard is read as off only from the boolean itself: the default
is on, and no text reads as a boolean. -/
theorem read_readOnly_eq_false {m : JsonMap}
    (h : ConfigField.read m .readOnly = .ok false) : m.get "read_only" = some (.bool false) := by
  cases hget : m.get ConfigField.readOnly.key with
  | none =>
    simp only [ConfigField.read, hget] at h
    have hdefault : defaultReadOnly = false := Except.ok.inj h
    contradiction
  | some j =>
    simp only [ConfigField.read, hget] at h
    have hread : deserializeBool j = .ok false := h
    cases j with
    | bool b =>
      obtain rfl := Except.ok.inj hread
      exact hget
    | null | num | str | arr | obj => contradiction

/-- The highest layer with a key decides its value in the merged map, and the
write safeguard is off only where the highest layer that mentions it says so. -/
theorem loadConfig_highest_layer_decides (stack : List JsonMap) :
    (∀ k v, (Map.overlay stack).get k = some v ↔ Decides stack k v) ∧
    (∀ k, (Map.overlay stack).get k = none ↔ ∀ layer ∈ stack, layer.get k = none) ∧
    (∀ c, loadLayers stack = .ok c → c.readOnly = false →
      Decides stack "read_only" (.bool false)) ∧
    ∀ yamlMapping sources cliFlags,
      merged yamlMapping sources cliFlags =
          Map.overlay (layers yamlMapping sources cliFlags) ∧
        loadConfig yamlMapping sources cliFlags =
          loadLayers (layers yamlMapping sources cliFlags) := by
  refine ⟨get_overlay_eq_some_iff stack, get_overlay_eq_none_iff stack, ?_, ?_⟩
  · intro c hc hoff
    have hread := (loadLayers_eq_ok_iff stack c).mp hc .readOnly
    rw [← get_overlay_eq_some_iff]
    apply read_readOnly_eq_false
    rw [hread]
    exact congrArg Except.ok hoff
  · intro yamlMapping sources cliFlags
    exact ⟨rfl, loadConfig_eq_loadLayers yamlMapping sources cliFlags⟩

/-- With the variable set to false over a file that says true, the safeguard is
off and the environment is the layer that decides it. -/
theorem readOnly_decided_by_env :
    Decides (layers (fun _ => some ⟨[("read_only", .bool true)], by decide⟩)
      { envSources "SQLSERVER_READ_ONLY" "false" with homeFile := some "read_only: true" }
      baseFlags) "read_only" (.bool false) := by
  obtain ⟨c, hc, hoff⟩ : ∃ c, loadLayers
      (layers (fun _ => some ⟨[("read_only", .bool true)], by decide⟩)
        { envSources "SQLSERVER_READ_ONLY" "false" with homeFile := some "read_only: true" }
        baseFlags) = .ok c ∧ c.readOnly = false := ⟨_, rfl, rfl⟩
  exact (loadConfig_highest_layer_decides _).2.2.1 c hc hoff

end SqlServerMcp.ConfigManager
