import SqlServerMcp.AddressTexts
import SqlServerMcp.ConfigManager
import SqlServerMcp.HealthChecks

/-!
The start of the server. The command leaves its settings in the environment, from
which they are read again with all the others; the log goes by the environment and
the transport by the settings. A server over HTTP listens at an address, so its host
must be written as a literal.
-/
namespace SqlServerMcp.HarnessServer

open AddressTexts AssocMap ConfigManager ConfigSchema FixedWidth HealthChecks JsonValue

/-- The commands that start a server. -/
inductive Command where
  | start
  | http (host : Option String) (port : Option U16) (corsAllow : Option String)

def Command.environment (env : Map String String) : Command → Map String String
  | .start => env.insert "SQLSERVER_TRANSPORT" "stdio"
  | .http host port corsAllow => httpEnv env host port corsAllow

/-- The settings that a command gives. -/
def Command.given : Command → (f : ConfigField) → Option f.kind.Value
  | .start, .transport => some .stdio
  | .http _ _ _, .transport => some .http
  | .http host _ _, .host => host
  | .http _ port _, .port => port
  | .http _ _ corsAllow, .corsAllow => corsAllow.map some
  | _, _ => none

def logsToStdout (env : Map String String) : Bool := env.get "SQLSERVER_TRANSPORT" = some "http"

structure HttpServerConfig where
  host : String
  port : U16
  corsAllow : Option String

def HttpServerConfig.ofConfig (config : Config) : HttpServerConfig where
  host := config.host
  port := config.port
  corsAllow := config.corsAllow

def HttpServerConfig.hostAndPort (config : HttpServerConfig) : String :=
  config.host ++ ":" ++ toString config.port.val

def HttpServerConfig.allowedHosts (config : HttpServerConfig) : List String :=
  ["localhost", "127.0.0.1", "::1", config.host, config.hostAndPort]

/-- What a server serves. -/
inductive Serving where
  | stdio
  | http (addr : SocketAddr) (allowedHosts : List String) (corsAllow : Option String)

structure Process where
  config : Config
  logsToStdout : Bool
  health : HealthCheckManager
  serving : Serving

inductive StartError where
  | config (cause : McpifyError)
  | store (message : String)
  | address
  | listener (message : String)

section Start

-- The store of a version, what opening it gives in each run of the checks, and what
-- the system answers to a listener.
variable (yamlMapping : String → Option JsonMap)
  (resolveStorePath : String → Except String String) (openStore : String → ℕ → Outcome)
  (listen : SocketAddr → Except String Unit)

def startHttpServer (config : HttpServerConfig) : Except StartError Serving :=
  match parseSocketAddr config.hostAndPort.toList with
  | none => .error .address
  | some addr =>
    match listen addr with
    | .ok () => .ok (.http addr config.allowedHosts config.corsAllow)
    | .error message => .error (.listener message)

def runHarnessServer (sources : Sources) : Except StartError Process :=
  match ConfigManager.runHarnessServer yamlMapping sources with
  | .error cause => .error (.config cause)
  | .ok config =>
    match resolveStorePath config.apiVersion with
    | .error message => .error (.store message)
    | .ok path =>
      let health := HealthCheckManager.new.register "store" true (openStore path)
      let serving := match config.transport with
        | .http => startHttpServer listen (.ofConfig config)
        | .stdio => .ok .stdio
      serving.map fun serving => ⟨config, logsToStdout sources.env, health, serving⟩

def main (sources : Sources) (command : Command) : Except StartError Process :=
  runHarnessServer yamlMapping resolveStorePath openStore listen
    { sources with env := command.environment sources.env }

end Start

/-- The variable that a field is read from. -/
def variableOf (f : ConfigField) : String := envName ((envEntries.lookup f.key).getD "")

section Environment

variable (yamlMapping : String → Option JsonMap)

theorem mem_envEntries (f : ConfigField) :
    (f.key, (envEntries.lookup f.key).getD "") ∈ envEntries := by
  cases f <;> decide

theorem get_foldl_envOverride_of_unset (env : Map String String) (k : String)
    (entries : List (String × String)) (acc : JsonMap)
    (h : ∀ suffix, (k, suffix) ∈ entries → env.get (envName suffix) = none) :
    (entries.foldl (envOverride env) acc).get k = acc.get k := by
  induction entries generalizing acc with
  | nil => rfl
  | cons e rest ih =>
    rw [List.foldl_cons, ih _ fun suffix hmem => h suffix (List.mem_cons_of_mem e hmem)]
    unfold envOverride
    split
    · rename_i value hset
      refine Map.get_insert_of_ne _ _ fun hk => ?_
      rw [h e.2 (hk ▸ List.mem_cons_self)] at hset
      cases hset
    · rfl

/-- Without the variable of a field the environment is silent on it. -/
theorem envOverrides_get_of_unset (env : Map String String) (f : ConfigField)
    (h : env.get (variableOf f) = none) : (envOverrides env).get f.key = none := by
  refine get_foldl_envOverride_of_unset env f.key envEntries Map.empty fun suffix hmem => ?_
  have hlookup := (lookup_eq_some_iff_mem envEntries_distinctKeys f.key suffix).mpr hmem
  rw [variableOf, hlookup] at h
  exact h

theorem envOverrides_get_eq (env : Map String String) (f : ConfigField) :
    (envOverrides env).get f.key = (env.get (variableOf f)).map (envValue f.key) := by
  cases h : env.get (variableOf f) with
  | none => exact envOverrides_get_of_unset env f h
  | some text => exact envOverrides_get env f.key _ text (mem_envEntries f) h

/-- The environment is seen through the variables of the fields. -/
theorem read_congr {sources : Sources} {env : Map String String} {f : ConfigField}
    (h : env.get (variableOf f) = sources.env.get (variableOf f)) :
    f.read (merged yamlMapping { sources with env := env } Map.empty) =
      f.read (merged yamlMapping sources Map.empty) := by
  have hget := Map.get_overlay_congr [Map.empty]
    [readYamlIfExists yamlMapping sources.localFile,
      readYamlIfExists yamlMapping sources.homeFile,
      readYamlIfExists yamlMapping sources.systemFile,
      readYamlIfExists yamlMapping sources.installFile]
    (show (envOverrides env).get f.key = (envOverrides sources.env).get f.key by
      rw [envOverrides_get_eq, envOverrides_get_eq, h])
  unfold ConfigField.read
  rw [show (merged yamlMapping { sources with env := env } Map.empty).get f.key =
    (merged yamlMapping sources Map.empty).get f.key from hget]

theorem httpEnv_get (env : Map String String) (host : Option String) (port : Option U16)
    (corsAllow : Option String) (name : String) :
    (httpEnv env host port corsAllow).get name =
      if name = "SQLSERVER_CORS_ALLOW" then corsAllow.or (env.get name)
      else if name = "SQLSERVER_PORT" then (port.map fun p => toString p.val).or (env.get name)
      else if name = "SQLSERVER_HOST" then host.or (env.get name)
      else if name = "SQLSERVER_TRANSPORT" then some "http"
      else env.get name := by
  cases host <;> cases port <;> cases corsAllow <;>
    simp only [httpEnv, Map.get_insert, Option.map_none, Option.map_some, Option.none_or,
      Option.some_or] <;> grind

/-- The command gives its settings and leaves the others. -/
theorem environment_get (command : Command) (env : Map String String) (f : ConfigField) :
    (command.environment env).get (variableOf f) =
      ((command.given f).bind f.kind.plainText).or (env.get (variableOf f)) := by
  cases command with
  | start =>
    rw [Command.environment, Map.get_insert]
    cases f <;> rfl
  | http host port corsAllow =>
    rw [Command.environment, httpEnv_get]
    cases f with
    | corsAllow => cases corsAllow <;> rfl
    | port => cases port <;> rfl
    | host => cases host <;> rfl
    | _ => rfl

end Environment

section Loading

variable (yamlMapping : String → Option JsonMap) (sources : Sources) (command : Command)

theorem exists_plainText_of_given {f : ConfigField} {v : f.kind.Value}
    (h : command.given f = some v) : ∃ text, f.kind.plainText v = some text := by
  cases command with
  | start =>
    cases f with
    | transport => exact ⟨_, rfl⟩
    | _ => cases h
  | http host port corsAllow =>
    cases f with
    | transport | host | port => exact ⟨_, rfl⟩
    | corsAllow =>
      obtain ⟨origin, -, rfl⟩ := Option.map_eq_some_iff.mp h
      exact ⟨origin, rfl⟩
    | _ => cases h

theorem isText_of_given {f : ConfigField} {v : f.kind.Value} (h : command.given f = some v)
    (hport : f ≠ .port) : f.kind.isText = true := by
  cases command with
  | start =>
    cases f with
    | transport => rfl
    | _ => cases h
  | http host port corsAllow =>
    cases f with
    | transport | host | corsAllow => rfl
    | port => contradiction
    | _ => cases h

/-- A setting of the command is read as it was given, and a port is not read at all. -/
theorem read_of_given {f : ConfigField} {v : f.kind.Value} (h : command.given f = some v)
    (w : f.kind.Value) :
    f.read (merged yamlMapping { sources with env := command.environment sources.env }
        Map.empty) = .ok w ↔ f ≠ .port ∧ w = v := by
  obtain ⟨text, htext⟩ := exists_plainText_of_given command h
  have hset : (command.environment sources.env).get (variableOf f) = some text := by
    rw [environment_get, h, Option.bind_some, htext, Option.some_or]
  have hget := merged_get_env yamlMapping
    { sources with env := command.environment sources.env } Map.empty f.key _ text
    (mem_envEntries f) rfl hset
  by_cases hport : f = .port
  · subst hport
    refine iff_of_false ?_ fun h' => h'.1 rfl
    rw [ConfigField.read, hget]
    exact FieldKind.deserialize_str_ne_ok .u16 rfl text w
  · have hread := (read_env_text_iff _ f v text htext hget).mpr
      (Or.inl (isText_of_given command h hport))
    rw [hread]
    exact ⟨fun heq => ⟨hport, (Except.ok.inj heq).symm⟩, fun h' => congrArg _ h'.2.symm⟩

theorem read_of_not_given {f : ConfigField} (h : command.given f = none) :
    f.read (merged yamlMapping { sources with env := command.environment sources.env }
        Map.empty) = f.read (merged yamlMapping sources Map.empty) := by
  refine read_congr yamlMapping ?_
  rw [environment_get, h]
  rfl

/-- The command decides what it gives, a port apart, and everything else is read as it
is without a command. -/
theorem loads_iff (c : Config) :
    ConfigManager.runHarnessServer yamlMapping
        { sources with env := command.environment sources.env } = .ok c ↔
      command.given .port = none ∧
        (∀ f v, command.given f = some v → c.get f = v) ∧
          ∀ f, command.given f = none →
            f.read (merged yamlMapping sources Map.empty) = .ok (c.get f) := by
  rw [ConfigManager.runHarnessServer, loadConfig_eq_ok_iff]
  constructor
  · intro h
    refine ⟨?_, ?_, ?_⟩
    · cases hport : command.given .port with
      | none => rfl
      | some port =>
        have hread := (read_of_given yamlMapping sources command hport _).mp (h .port)
        exact absurd rfl hread.1
    · intro f v hv
      exact ((read_of_given yamlMapping sources command hv _).mp (h f)).2
    · intro f hf
      rw [← read_of_not_given yamlMapping sources command hf]
      exact h f
  · intro h f
    obtain ⟨hport, hgiven, hothers⟩ := h
    cases hf : command.given f with
    | none =>
      rw [read_of_not_given yamlMapping sources command hf]
      exact hothers f hf
    | some v =>
      refine (read_of_given yamlMapping sources command hf _).mpr ⟨?_, hgiven f v hf⟩
      rintro rfl
      rw [hport] at hf
      cases hf

end Loading

/-- What a server of these settings serves. -/
inductive Serves (listen : SocketAddr → Except String Unit) (config : Config) : Serving → Prop
  | stdio (htransport : config.transport = .stdio) : Serves listen config .stdio
  | http {addr : SocketAddr} (htransport : config.transport = .http)
      (hhost : Denotes config.host.toList addr.ip) (hport : addr.port = config.port)
      (hlisten : listen addr = .ok ()) :
      Serves listen config
        (.http addr (HttpServerConfig.ofConfig config).allowedHosts config.corsAllow)

section Started

variable (yamlMapping : String → Option JsonMap)
  (resolveStorePath : String → Except String String) (openStore : String → ℕ → Outcome)
  (listen : SocketAddr → Except String Unit) (sources : Sources) (command : Command)

/-- A server as a command starts it. -/
structure Started (p : Process) : Prop where
  no_port : command.given .port = none
  given : ∀ f v, command.given f = some v → p.config.get f = v
  others : ∀ f, command.given f = none →
    f.read (merged yamlMapping sources Map.empty) = .ok (p.config.get f)
  store : ∃ path, resolveStorePath p.config.apiVersion = .ok path ∧
    p.health = HealthCheckManager.new.register "store" true (openStore path)
  serves : Serves listen p.config p.serving
  logs : p.logsToStdout = true ↔ p.serving ≠ .stdio

theorem startHttpServer_eq_ok_iff (config : Config) (serving : Serving) :
    startHttpServer listen (.ofConfig config) = .ok serving ↔
      ∃ addr, Denotes config.host.toList addr.ip ∧ addr.port = config.port ∧
        listen addr = .ok () ∧
        serving =
          .http addr (HttpServerConfig.ofConfig config).allowedHosts config.corsAllow := by
  have htext : (HttpServerConfig.ofConfig config).hostAndPort.toList =
      config.host.toList ++ ':' :: (toString config.port.val).toList := by
    simp [HttpServerConfig.hostAndPort, HttpServerConfig.ofConfig]
  rw [startHttpServer, htext]
  constructor
  · intro h
    split at h
    · cases h
    · rename_i addr haddr
      have hparsed := (parseSocketAddr_iff _ _ addr).mp haddr
      split at h
      · rename_i hlisten
        exact ⟨addr, hparsed.1, hparsed.2, hlisten, (Except.ok.inj h).symm⟩
      · cases h
  · intro h
    obtain ⟨addr, hhost, hport, hlisten, rfl⟩ := h
    rw [(parseSocketAddr_iff _ _ addr).mpr ⟨hhost, hport⟩]
    simp only [hlisten]
    rfl

theorem logsToStdout_environment :
    logsToStdout (command.environment sources.env) = true ↔
      command.given .transport = some .http := by
  have hget := environment_get command sources.env .transport
  rw [logsToStdout, decide_eq_true_eq, show "SQLSERVER_TRANSPORT" = variableOf .transport from rfl,
    hget]
  cases command with
  | start => exact iff_of_false (fun h => absurd (Option.some.inj h) (by decide)) nofun
  | http => exact iff_of_true rfl rfl

theorem serves_iff (config : Config) (serving : Serving) :
    (match config.transport with
      | .http => startHttpServer listen (.ofConfig config)
      | .stdio => .ok .stdio) = .ok serving ↔ Serves listen config serving := by
  cases htransport : config.transport with
  | stdio =>
    constructor
    · intro h
      obtain rfl := Except.ok.inj h
      exact .stdio htransport
    · intro h
      cases h with
      | stdio => rfl
      | http hother => exact nomatch htransport.symm.trans hother
  | http =>
    dsimp only
    rw [startHttpServer_eq_ok_iff]
    constructor
    · intro h
      obtain ⟨addr, hhost, hport, hlisten, rfl⟩ := h
      exact .http htransport hhost hport hlisten
    · intro h
      cases h with
      | stdio hother => exact nomatch htransport.symm.trans hother
      | @http addr _ hhost hport hlisten => exact ⟨addr, hhost, hport, hlisten, rfl⟩

theorem Serves.ne_stdio_iff {listen : SocketAddr → Except String Unit} {config : Config}
    {serving : Serving} (h : Serves listen config serving) :
    serving ≠ .stdio ↔ config.transport = .http := by
  cases h with
  | stdio htransport => exact iff_of_false (fun hne => hne rfl) (by rw [htransport]; nofun)
  | http htransport => exact iff_of_true nofun htransport

/-- The log goes to where the protocol does not. -/
theorem logs_iff {config : Config} {serving : Serving}
    (hgiven : ∀ f v, command.given f = some v → config.get f = v)
    (hserves : Serves listen config serving) :
    logsToStdout (command.environment sources.env) = true ↔ serving ≠ .stdio := by
  rw [logsToStdout_environment, hserves.ne_stdio_iff]
  have htransport := hgiven .transport
  cases command with
  | start =>
    have hstdio : config.transport = .stdio := htransport .stdio rfl
    rw [hstdio]
    exact iff_of_false nofun nofun
  | http => exact iff_of_true rfl (htransport .http rfl)

variable {yamlMapping resolveStorePath openStore listen sources command}

theorem started_of_main {p : Process}
    (h : main yamlMapping resolveStorePath openStore listen sources command = .ok p) :
    Started yamlMapping resolveStorePath openStore listen sources command p := by
  rw [main, runHarnessServer] at h
  split at h
  · cases h
  · rename_i config hconfig
    obtain ⟨hport, hgiven, hothers⟩ := (loads_iff yamlMapping sources command config).mp hconfig
    split at h
    · cases h
    · rename_i path hpath
      obtain ⟨serving, hserving, rfl⟩ := (Results.map_eq_ok _ _ _).mp h
      have hserves := (serves_iff listen config serving).mp hserving
      exact ⟨hport, hgiven, hothers, ⟨path, hpath, rfl⟩, hserves,
        logs_iff listen sources command hgiven hserves⟩

theorem main_of_started {p : Process}
    (h : Started yamlMapping resolveStorePath openStore listen sources command p) :
    main yamlMapping resolveStorePath openStore listen sources command = .ok p := by
  obtain ⟨config, toStdout, health, serving⟩ := p
  obtain ⟨path, hpath, hhealth⟩ := h.store
  rw [main, runHarnessServer,
    (loads_iff yamlMapping sources command config).mpr ⟨h.no_port, h.given, h.others⟩]
  dsimp only at hpath hhealth ⊢
  rw [hpath]
  dsimp only
  rw [(serves_iff listen config serving).mpr h.serves, hhealth]
  have hlogs := (logs_iff listen sources command h.given h.serves).trans h.logs.symm
  rw [Except.map, Bool.eq_iff_iff.mpr hlogs]

variable (yamlMapping resolveStorePath openStore listen sources command)

/-- A command starts a server exactly when the settings that it does not give are
there, it gives no port, the store of the version is there, and a host to listen at
is a literal that the system takes. The server runs over the transport of the command
and never logs to where its protocol goes. -/
theorem main_eq_ok_iff (p : Process) :
    main yamlMapping resolveStorePath openStore listen sources command = .ok p ↔
      Started yamlMapping resolveStorePath openStore listen sources command p :=
  ⟨started_of_main, main_of_started⟩

end Started

end SqlServerMcp.HarnessServer
