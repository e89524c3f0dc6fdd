import SqlServerMcp.ConfigManager
import SqlServerMcp.ShellWords

/-!
The setup wizard and what becomes of its answers: the two configuration files it
can write, which the configuration cascade reads, and the command line it can
print, which goes through the shell to the argument parser. The files restore
the answers; the parser knows none of the printed flags.
-/
namespace SqlServerMcp.SetupWizard

open AssocMap ConfigManager ConfigSchema JsonValue ShellWords

section Answers

/-- The credentials that are asked for under each auth method. -/
inductive Credentials where
  | sqlServer (username password : String)
  | windows (username password : String)
  | azureAd (clientId clientSecret tenantId : String)

def Credentials.authMethod : Credentials → AuthMethod
  | .sqlServer _ _ => .sqlServer
  | .windows _ _ => .windows
  | .azureAd _ _ _ => .azureAd

/-- A tenant that is left empty is left out. -/
def promptCredentials : Credentials → Map String String
  | .sqlServer username password | .windows username password =>
    (Map.empty.insert "username" username).insert "password" password
  | .azureAd clientId clientSecret tenantId =>
    let credentials :=
      (Map.empty.insert "client_id" clientId).insert "client_secret" clientSecret
    if tenantId = "" then credentials else credentials.insert "tenant_id" tenantId

def parseDefaultDatabaseAnswer (answer : String) : Option String :=
  if Text.trim answer.toList = [] then none else some answer

/-- The version that a choice stands for. -/
def promptApiVersion (selection : String) : String :=
  if selection = "2025 (default/latest)" then "2025" else selection

structure Answers where
  url : String
  credentials : Credentials
  versionSelection : String
  databaseAnswer : String
  transport : Transport

namespace Answers

variable (a : Answers)

def authMethod : AuthMethod := a.credentials.authMethod

def apiVersion : String := promptApiVersion a.versionSelection

def defaultDatabase : Option String := parseDefaultDatabaseAnswer a.databaseAnswer

end Answers

def toEnvKey (key : String) : String := String.ofList (key.toList.map Char.toUpper)

/-- The answers to the questions about settings, as environment variables. -/
def settingVariables (a : Answers) : Map String String :=
  let env := Map.empty.insert "SQLSERVER_URL" a.url
  let env := env.insert "SQLSERVER_AUTH_METHOD" a.authMethod.name
  let env := env.insert "SQLSERVER_API_VERSION" a.apiVersion
  let env := match a.defaultDatabase with
    | some database => env.insert "SQLSERVER_DEFAULT_DATABASE" database
    | none => env
  env.insert "SQLSERVER_TRANSPORT" a.transport.name

/-- The credentials are variables too. -/
def environment (a : Answers) : Map String String :=
  (promptCredentials a.credentials).entries.foldl
    (fun env e => env.insert ("SQLSERVER_" ++ toEnvKey e.1) e.2) (settingVariables a)

def jsonOf : Option String → Json
  | some s => .str s
  | none => .null

/-- The settings that go into a configuration file: no credentials. -/
def configFields (a : Answers) : JsonMap :=
  let fields := Map.empty.insert "url" (jsonOf ((environment a).get "SQLSERVER_URL"))
  let fields := fields.insert "auth_method" (jsonOf ((environment a).get "SQLSERVER_AUTH_METHOD"))
  let fields := fields.insert "api_version" (jsonOf ((environment a).get "SQLSERVER_API_VERSION"))
  let fields := fields.insert "transport" (jsonOf ((environment a).get "SQLSERVER_TRANSPORT"))
  match a.defaultDatabase with
  | some database => fields.insert "default_database" (.str database)
  | none => fields

def wizardVariables : List String :=
  ["SQLSERVER_URL", "SQLSERVER_AUTH_METHOD", "SQLSERVER_API_VERSION",
   "SQLSERVER_DEFAULT_DATABASE", "SQLSERVER_TRANSPORT", "SQLSERVER_USERNAME",
   "SQLSERVER_PASSWORD", "SQLSERVER_CLIENT_ID", "SQLSERVER_CLIENT_SECRET",
   "SQLSERVER_TENANT_ID"]

/-- The variables of the credentials are none of the settings'. -/
theorem credential_variable {credentials : Credentials} {key : String}
    (h : key ∈ keys (promptCredentials credentials).entries) :
    "SQLSERVER_" ++ toEnvKey key ∈ wizardVariables.drop 5 := by
  have hkeys : key ∈ ["username", "password", "client_id", "client_secret", "tenant_id"] := by
    cases credentials with
    | sqlServer username password | windows username password =>
      have hmem : key ∈ ["username", "password"] := h
      exact List.mem_append_left _ hmem
    | azureAd clientId clientSecret tenantId =>
      unfold promptCredentials at h
      dsimp only at h
      split at h
      · have hmem : key ∈ ["client_id", "client_secret"] := h
        simp only [List.mem_cons, List.not_mem_nil, or_false] at hmem ⊢
        tauto
      · have hmem : key ∈ ["client_id", "client_secret", "tenant_id"] := h
        simp only [List.mem_cons, List.not_mem_nil, or_false] at hmem ⊢
        tauto
  revert hkeys
  have hall : ∀ k ∈ ["username", "password", "client_id", "client_secret", "tenant_id"],
      "SQLSERVER_" ++ toEnvKey k ∈ wizardVariables.drop 5 := by decide
  exact hall key

theorem environment_keys (a : Answers) {key : String}
    (h : key ∈ keys (environment a).entries) : key ∈ wizardVariables := by
  unfold environment at h
  rw [Map.mem_keys_foldl_insert] at h
  rcases h with hsetting | hcredential
  · have hkeys : key ∈ wizardVariables.take 5 := by
      unfold settingVariables at hsetting
      cases hdatabase : a.defaultDatabase with
      | none =>
        rw [hdatabase] at hsetting
        have hmem : key ∈ ["SQLSERVER_URL", "SQLSERVER_AUTH_METHOD", "SQLSERVER_API_VERSION",
          "SQLSERVER_TRANSPORT"] := hsetting
        exact List.Sublist.subset (by decide) hmem
      | some database =>
        rw [hdatabase] at hsetting
        exact hsetting
    exact List.mem_of_mem_take hkeys
  · obtain ⟨e, he, rfl⟩ := List.mem_map.mp hcredential
    exact List.mem_of_mem_drop (credential_variable (List.mem_map_of_mem he))

/-- The credentials do not change the variables of the settings. -/
theorem environment_get (a : Answers) {key : String} (h : key ∉ wizardVariables.drop 5) :
    (environment a).get key = (settingVariables a).get key := by
  unfold environment
  apply Map.get_foldl_insert_of_notMem
  intro hmem
  obtain ⟨e, he, rfl⟩ := List.mem_map.mp hmem
  exact h (credential_variable (List.mem_map_of_mem he))

theorem settingVariables_get (a : Answers) :
    (settingVariables a).get "SQLSERVER_URL" = some a.url ∧
      (settingVariables a).get "SQLSERVER_AUTH_METHOD" = some a.authMethod.name ∧
      (settingVariables a).get "SQLSERVER_API_VERSION" = some a.apiVersion ∧
      (settingVariables a).get "SQLSERVER_TRANSPORT" = some a.transport.name := by
  unfold settingVariables
  cases a.defaultDatabase with
  | none => exact ⟨rfl, rfl, rfl, rfl⟩
  | some database => exact ⟨rfl, rfl, rfl, rfl⟩

theorem configFields_get (a : Answers) :
    (configFields a).get "url" = some (.str a.url) ∧
      (configFields a).get "auth_method" = some (.str a.authMethod.name) ∧
      (configFields a).get "api_version" = some (.str a.apiVersion) ∧
      (configFields a).get "transport" = some (.str a.transport.name) ∧
      (configFields a).get "default_database" = a.defaultDatabase.map .str := by
  obtain ⟨hurl, hauth, hversion, htransport⟩ := settingVariables_get a
  unfold configFields
  rw [environment_get a (by decide), environment_get a (by decide), environment_get a (by decide),
    environment_get a (by decide), hurl, hauth, hversion, htransport]
  cases a.defaultDatabase with
  | none => exact ⟨rfl, rfl, rfl, rfl, rfl⟩
  | some database => exact ⟨rfl, rfl, rfl, rfl, rfl⟩

/-- The settings that the wizard asks for. -/
def wizardFields : List ConfigField :=
  [.url, .authMethod, .apiVersion, .transport, .defaultDatabase]

/-- The files leave every other field out. -/
theorem configFields_get_other (a : Answers) {f : ConfigField} (h : f ∉ wizardFields) :
    (configFields a).get f.key = none := by
  unfold configFields
  cases a.defaultDatabase with
  | none => cases f <;> first | rfl | exact absurd (by decide) h
  | some database => cases f <;> first | rfl | exact absurd (by decide) h

end Answers

section Files

/-- The configuration of an answer, in the fields that the wizard asks for. -/
structure SameSettings (a : Answers) (c : Config) : Prop where
  url : c.url = a.url
  authMethod : c.authMethod = a.authMethod
  apiVersion : c.apiVersion = a.apiVersion
  transport : c.transport = a.transport
  defaultDatabase : c.defaultDatabase = a.defaultDatabase

/-- The file of the home directory, or else the one of the working directory, is
replaced. -/
def replaceConfig (global : Bool) (sources : Sources) (contents : Option String) : Sources :=
  if global then { sources with homeFile := contents } else { sources with localFile := contents }

def writeConfigYaml (yamlText : JsonMap → String) (global : Bool) (sources : Sources)
    (fields : JsonMap) : Sources :=
  replaceConfig global sources (some (yamlText fields))

-- The YAML parser's mapping of a text, when the text is one.
variable (yamlMapping : String → Option JsonMap)

/-- No other layer speaks of the settings of the wizard, and the other fields
can be read. -/
structure NothingElse (global : Bool) (sources : Sources) : Prop where
  silent : ∀ layer ∈ layers yamlMapping (replaceConfig global sources none) Map.empty,
    ∀ f ∈ wizardFields, layer.get f.key = none
  reads : ∀ f ∉ wizardFields, ∃ v,
    f.read (merged yamlMapping (replaceConfig global sources none) Map.empty) = .ok v

/-- The file that is written is the only layer that changes. -/
theorem layers_replaceConfig (global : Bool) (sources : Sources) :
    ∃ higher lower, ∀ contents,
      layers yamlMapping (replaceConfig global sources contents) Map.empty =
        higher ++ readYamlIfExists yamlMapping contents :: lower := by
  cases global with
  | true =>
    exact ⟨[Map.empty, envOverrides sources.env, readYamlIfExists yamlMapping sources.localFile],
      [readYamlIfExists yamlMapping sources.systemFile,
        readYamlIfExists yamlMapping sources.installFile], fun _ => rfl⟩
  | false =>
    exact ⟨[Map.empty, envOverrides sources.env],
      [readYamlIfExists yamlMapping sources.homeFile,
        readYamlIfExists yamlMapping sources.systemFile,
        readYamlIfExists yamlMapping sources.installFile], fun _ => rfl⟩

/-- The YAML library reads back what it wrote for the fields. -/
def ReadsBack (yamlText : JsonMap → String) (fields : JsonMap) : Prop :=
  ∃ m, yamlMapping (yamlText fields) = some m ∧ ∀ k, m.get k = fields.get k

variable {yamlMapping} {yamlText : JsonMap → String} {a : Answers}

/-- The cascade finds the settings of the wizard in the file, and everything
else where it was. -/
theorem merged_writeConfigYaml (hyaml : ReadsBack yamlMapping yamlText (configFields a))
    {global : Bool} {sources : Sources} (h : NothingElse yamlMapping global sources) :
    (∀ f ∈ wizardFields, (merged yamlMapping
      (writeConfigYaml yamlText global sources (configFields a)) Map.empty).get f.key =
        (configFields a).get f.key) ∧
    ∀ f ∉ wizardFields, (merged yamlMapping
      (writeConfigYaml yamlText global sources (configFields a)) Map.empty).get f.key =
        (merged yamlMapping (replaceConfig global sources none) Map.empty).get f.key := by
  obtain ⟨m, hread, hm⟩ := hyaml
  obtain ⟨higher, lower, hlayers⟩ := layers_replaceConfig yamlMapping global sources
  have hwritten : readYamlIfExists yamlMapping (some (yamlText (configFields a))) = m := by
    simp only [readYamlIfExists, Option.bind_some, hread]
  have hsilent := h.silent
  rw [hlayers none] at hsilent
  unfold merged writeConfigYaml
  rw [hlayers (some (yamlText (configFields a))), hlayers none, hwritten]
  constructor
  · intro f hf
    rw [← hm f.key]
    apply Map.get_overlay_of_silent
    intro other hother
    apply hsilent other _ f hf
    rcases List.mem_append.mp hother with hhigher | hlower
    · exact List.mem_append_left _ hhigher
    · exact List.mem_append_right _ (List.mem_cons_of_mem _ hlower)
  · intro f hf
    apply Map.get_overlay_congr
    rw [hm, configFields_get_other a hf]
    rfl

/-- A configuration file restores the answers: wherever nothing else speaks of
them, the cascade loads them back. -/
def FileRestores (yamlMapping : String → Option JsonMap) (yamlText : JsonMap → String)
    (global : Bool) (a : Answers) : Prop :=
  ∀ sources, NothingElse yamlMapping global sources →
    ∃ c, loadConfig yamlMapping (writeConfigYaml yamlText global sources (configFields a))
      Map.empty = .ok c ∧ SameSettings a c

theorem read_of_get_str {m : JsonMap} {f : ConfigField} {text : String} {v : f.kind.Value}
    (hget : m.get f.key = some (.str text)) (htext : f.kind.isText = true)
    (hplain : f.kind.plainText v = some text) : f.read m = .ok v := by
  simp only [ConfigField.read, hget]
  exact f.kind.deserialize_plainText htext v text hplain

theorem read_of_get_eq {m m' : JsonMap} {f : ConfigField} (h : m.get f.key = m'.get f.key) :
    f.read m = f.read m' := by
  simp only [ConfigField.read, h]

/-- A map with the settings of the file is read as the answers. -/
theorem read_wizardFields {m : JsonMap}
    (h : ∀ f ∈ wizardFields, m.get f.key = (configFields a).get f.key) :
    ConfigField.url.read m = .ok a.url ∧ ConfigField.authMethod.read m = .ok a.authMethod ∧
      ConfigField.apiVersion.read m = .ok a.apiVersion ∧
      ConfigField.transport.read m = .ok a.transport ∧
      ConfigField.defaultDatabase.read m = .ok a.defaultDatabase := by
  obtain ⟨hurl, hauth, hversion, htransport, hdatabase⟩ := configFields_get a
  refine ⟨read_of_get_str ((h .url (by decide)).trans hurl) rfl rfl,
    read_of_get_str ((h .authMethod (by decide)).trans hauth) rfl rfl,
    read_of_get_str ((h .apiVersion (by decide)).trans hversion) rfl rfl,
    read_of_get_str ((h .transport (by decide)).trans htransport) rfl rfl, ?_⟩
  have hget := (h .defaultDatabase (by decide)).trans hdatabase
  cases hanswer : a.defaultDatabase with
  | none =>
    rw [hanswer] at hget
    simp only [ConfigField.read, hget, Option.map_none]
    rfl
  | some database =>
    rw [hanswer] at hget
    exact read_of_get_str hget rfl rfl

theorem fileRestores (hyaml : ReadsBack yamlMapping yamlText (configFields a)) (global : Bool) :
    FileRestores yamlMapping yamlText global a := by
  intro sources h
  obtain ⟨hwizard, hother⟩ := merged_writeConfigYaml hyaml h
  generalize hmerged : merged yamlMapping
    (writeConfigYaml yamlText global sources (configFields a)) Map.empty = m at hwizard hother
  obtain ⟨hurl, hauth, hversion, htransport, hdatabase⟩ := read_wizardFields hwizard
  have hall : ∀ f : ConfigField, ∃ v, f.read m = .ok v := by
    intro f
    by_cases hf : f ∈ wizardFields
    · simp only [wizardFields, List.mem_cons, List.not_mem_nil, or_false] at hf
      rcases hf with rfl | rfl | rfl | rfl | rfl
      · exact ⟨_, hurl⟩
      · exact ⟨_, hauth⟩
      · exact ⟨_, hversion⟩
      · exact ⟨_, htransport⟩
      · exact ⟨_, hdatabase⟩
    · obtain ⟨v, hv⟩ := h.reads f hf
      exact ⟨v, (read_of_get_eq (hother f hf)).trans hv⟩
  obtain ⟨c, hc⟩ := Config.exists_deserialize m hall
  have hfields := (Config.deserialize_eq_ok_iff m c).mp hc
  refine ⟨c, (loadConfig_eq_ok_iff _ _ _ c).mpr (hmerged ▸ hfields), ?_⟩
  exact
    { url := Except.ok.inj ((hfields .url).symm.trans hurl)
      authMethod := Except.ok.inj ((hfields .authMethod).symm.trans hauth)
      apiVersion := Except.ok.inj ((hfields .apiVersion).symm.trans hversion)
      transport := Except.ok.inj ((hfields .transport).symm.trans htransport)
      defaultDatabase := Except.ok.inj ((hfields .defaultDatabase).symm.trans hdatabase) }

end Files

section CommandLine

/-- A character of a text in its debug form. Which characters print as they are
is for the standard library to say. -/
def escapeDebug (isPrintable : Char → Bool) (c : Char) : List Char :=
  if c = Char.ofNat 0 then ['\\', '0']
  else if c = '\t' then ['\\', 't']
  else if c = '\r' then ['\\', 'r']
  else if c = '\n' then ['\\', 'n']
  else if c = '"' || c = '\\' then ['\\', c]
  else if isPrintable c then [c]
  else ['\\', 'u', Char.ofNat 123] ++ Nat.toDigits 16 c.toNat ++ [Char.ofNat 125]

def debugText (isPrintable : Char → Bool) (s : String) : String :=
  String.ofList ('"' :: s.toList.flatMap (escapeDebug isPrintable) ++ ['"'])

def flagName (key : String) : String :=
  String.ofList (key.toList.map fun c => if c = '_' then '-' else c.toLower)

def flag (isPrintable : Char → Bool) (e : String × String) : String :=
  "--" ++ flagName e.1 ++ " " ++ debugText isPrintable e.2

/-- The printed invocation, the variables in the order they are listed in. -/
def commandLine (isPrintable : Char → Bool) (env : List (String × String)) : String :=
  "sqlserver-mcp" ++ " " ++ ("start" ++ " " ++ String.intercalate " " (env.map (flag isPrintable)))

/-- What the program is asked to do. -/
inductive Command where
  | setup
  | search (query : String) (limit profileWarmups profileIterations : ℕ)
  | get (operationId : String)
  | call (operationId args : String)
  | start
  | http (host : Option String) (port : Option FixedWidth.U16) (corsAllow : Option String)
  | testConnection
  | config
  | version
  | versions

/-- The subcommands with the long options they declare. -/
def subcommands : List (String × List String) :=
  [("setup", []),
   ("search", ["limit", "profile-warmups", "profile-iterations"]),
   ("get", []),
   ("call", ["args"]),
   ("start", []),
   ("http", ["host", "port", "cors-allow"]),
   ("test-connection", []),
   ("config", []),
   ("version", []),
   ("versions", [])]

/-- The argument parser rejects a long option that the subcommand before it does
not declare; `help` is declared for all of them. -/
def ClapRejectsUnknown (parse : List String → Except String Command) : Prop :=
  ∀ (program : String) (subcommand : String × List String) (option : String)
    (rest : List String), subcommand ∈ subcommands → option ∉ subcommand.2 → option ≠ "help" →
      option ≠ "" → '=' ∉ option.toList →
      ∃ err, parse (program :: subcommand.1 :: ("--" ++ option) :: rest) = .error err

/-- The subcommand `start` on its own sets the transport and runs the server. -/
def commandStart (yamlMapping : String → Option JsonMap) (sources : Sources) :
    Except McpifyError Config :=
  runHarnessServer yamlMapping
    { sources with env := sources.env.insert "SQLSERVER_TRANSPORT" "stdio" }

/-- A command line restores the answers: its words are accepted as `start`, and
where nothing else speaks of the answers that command has them. -/
def LineRestores (parse : List String → Except String Command)
    (yamlMapping : String → Option JsonMap) (line : String) (a : Answers) : Prop :=
  ∃ ws, words line = some ws ∧ parse ws = .ok .start ∧
    ∀ global sources, NothingElse yamlMapping global sources →
      ∃ c, commandStart yamlMapping sources = .ok c ∧ SameSettings a c

/-- Every form in which the answers are saved restores them. -/
structure Restores (isPrintable : Char → Bool) (parse : List String → Except String Command)
    (yamlMapping : String → Option JsonMap) (yamlText : JsonMap → String) (a : Answers) :
    Prop where
  globalFile : FileRestores yamlMapping yamlText true a
  localFile : FileRestores yamlMapping yamlText false a
  printedLine : ∀ env, env.Perm (environment a).entries →
    LineRestores parse yamlMapping (commandLine isPrintable env) a

/-- The flags of the variables that the wizard can set. -/
def wizardFlags : List String :=
  ["sqlserver-url", "sqlserver-auth-method", "sqlserver-api-version",
   "sqlserver-default-database", "sqlserver-transport", "sqlserver-username",
   "sqlserver-password", "sqlserver-client-id", "sqlserver-client-secret",
   "sqlserver-tenant-id"]

theorem flagName_mem {key : String} (h : key ∈ wizardVariables) : flagName key ∈ wizardFlags := by
  have hflags : wizardVariables.map flagName = wizardFlags := rfl
  rw [← hflags]
  exact List.mem_map_of_mem h

theorem flagName_plain {key : String} (h : key ∈ wizardVariables) :
    ("--" ++ flagName key).toList.all isPlain = true ∧ flagName key ≠ "help" ∧
      flagName key ≠ "" ∧ '=' ∉ (flagName key).toList := by
  have hall : ∀ name ∈ wizardFlags, ("--" ++ name).toList.all isPlain = true ∧
      name ≠ "help" ∧ name ≠ "" ∧ '=' ∉ name.toList := by decide
  exact hall _ (flagName_mem h)

/-- The first flag of a line is its third word. -/
theorem words_commandLine (isPrintable : Char → Bool) {e : String × String}
    (rest : List (String × String)) (h : e.1 ∈ wizardVariables) {ws : List String}
    (hws : words (commandLine isPrintable (e :: rest)) = some ws) :
    ∃ tail, ws = "sqlserver-mcp" :: "start" :: ("--" ++ flagName e.1) :: tail := by
  obtain ⟨values, hvalues⟩ : ∃ values, String.intercalate " "
      ((e :: rest).map (flag isPrintable)) = "--" ++ flagName e.1 ++ " " ++ values := by
    cases rest with
    | nil => exact ⟨debugText isPrintable e.2, String.intercalate_singleton⟩
    | cons e' rest =>
      refine ⟨debugText isPrintable e.2 ++ " " ++
        String.intercalate " " ((e' :: rest).map (flag isPrintable)), ?_⟩
      rw [List.map_cons, List.map_cons, String.intercalate_cons_cons, flag]
      simp only [String.append_assoc]
  have hflag : "--" ++ flagName e.1 ≠ "" := by
    intro heq
    have hlength := congrArg String.length heq
    rw [String.length_append] at hlength
    have hdashes : "--".length = 2 := rfl
    have hempty : "".length = 0 := rfl
    omega
  rw [commandLine, hvalues, words_cons (by decide) rfl, words_cons (by decide) rfl,
    words_cons hflag (flagName_plain h).1] at hws
  cases htail : words values with
  | none =>
    rw [htail] at hws
    contradiction
  | some tail =>
    rw [htail] at hws
    exact ⟨tail, (Option.some.inj hws).symm⟩

/-- The parser rejects the printed line, whatever the answers and in whatever
order their variables are listed. -/
theorem commandLine_rejected {parse : List String → Except String Command}
    (hparse : ClapRejectsUnknown parse) (isPrintable : Char → Bool) (a : Answers)
    {env : List (String × String)} (henv : env.Perm (environment a).entries)
    {ws : List String} (hws : words (commandLine isPrintable env) = some ws) :
    ∃ err, parse ws = .error err := by
  cases env with
  | nil =>
    have hget := environment_get a (show "SQLSERVER_URL" ∉ wizardVariables.drop 5 by decide)
    have hnone : (environment a).get "SQLSERVER_URL" = none := by
      rw [Map.get, List.nil_perm.mp henv]
      rfl
    rw [(settingVariables_get a).1, hnone] at hget
    contradiction
  | cons e rest =>
    have hkey : e.1 ∈ wizardVariables :=
      environment_keys a (List.mem_map_of_mem (henv.subset List.mem_cons_self))
    obtain ⟨tail, rfl⟩ := words_commandLine isPrintable rest hkey hws
    obtain ⟨-, hhelp, hempty, hequals⟩ := flagName_plain hkey
    exact hparse "sqlserver-mcp" ("start", []) (flagName e.1) tail (by decide) (List.not_mem_nil)
      hhelp hempty hequals

/-- Both configuration files restore all answers, the printed line is rejected
for all answers, and so the forms together restore none. -/
theorem saved_answers (isPrintable : Char → Bool) (parse : List String → Except String Command)
    (hparse : ClapRejectsUnknown parse) (yamlMapping : String → Option JsonMap)
    (yamlText : JsonMap → String) (a : Answers)
    (hyaml : ReadsBack yamlMapping yamlText (configFields a)) :
    (∀ global, FileRestores yamlMapping yamlText global a) ∧
    (∀ env ws, env.Perm (environment a).entries →
      words (commandLine isPrintable env) = some ws → ∃ err, parse ws = .error err) ∧
    ¬ Restores isPrintable parse yamlMapping yamlText a := by
  refine ⟨fileRestores hyaml, ?_, ?_⟩
  · intro env ws henv hws
    exact commandLine_rejected hparse isPrintable a henv hws
  · intro h
    obtain ⟨ws, hws, haccepted, -⟩ := h.printedLine _ (List.Perm.refl _)
    obtain ⟨err, herr⟩ := commandLine_rejected hparse isPrintable a (List.Perm.refl _) hws
    rw [haccepted] at herr
    contradiction

end CommandLine

section Sample

def sampleAnswers : Answers where
  url := "localhost"
  credentials := .sqlServer "sa" "secret"
  versionSelection := "2025 (default/latest)"
  databaseAnswer := ""
  transport := .stdio

def isAscii (c : Char) : Bool := 32 ≤ c.toNat && c.toNat < 127

/-- The parser on the subcommand `start`: it takes nothing after it. -/
def parseStart (ws : List String) : Except String Command :=
  if ws = ["sqlserver-mcp", "start"] then .ok .start else .error "unexpected argument found"

theorem parseStart_rejects : ClapRejectsUnknown parseStart := by
  intro program subcommand option rest _ _ _ _ _
  refine ⟨_, if_neg ?_⟩
  intro heq
  have hlength := congrArg List.length heq
  simp only [List.length_cons, List.length_nil] at hlength
  omega

def sampleYaml : String :=
  "url: localhost\nauth_method: sql_server\napi_version: '2025'\ntransport: stdio\n"

/-- A YAML library on the document of the sample answers. -/
def sampleMapping (text : String) : Option JsonMap :=
  if text = sampleYaml then some (configFields sampleAnswers) else none

theorem saved_answers_sample :
    (∀ global, FileRestores sampleMapping (fun _ => sampleYaml) global sampleAnswers) ∧
    (∀ env ws, env.Perm (environment sampleAnswers).entries →
      words (commandLine isAscii env) = some ws → ∃ err, parseStart ws = .error err) ∧
    ¬ Restores isAscii parseStart sampleMapping (fun _ => sampleYaml) sampleAnswers :=
  saved_answers isAscii parseStart parseStart_rejects sampleMapping (fun _ => sampleYaml)
    sampleAnswers ⟨configFields sampleAnswers, if_pos rfl, fun _ => rfl⟩

/-- The line that is printed for the sample answers is not accepted. -/
theorem not_restores_sample :
    ¬ ∀ (isPrintable : Char → Bool) (parse : List String → Except String Command)
        (yamlMapping : String → Option JsonMap) (yamlText : JsonMap → String) (a : Answers),
      ClapRejectsUnknown parse → ReadsBack yamlMapping yamlText (configFields a) →
        Restores isPrintable parse yamlMapping yamlText a := by
  intro h
  have hrestores := h isAscii parseStart sampleMapping (fun _ => sampleYaml)
    sampleAnswers parseStart_rejects ⟨configFields sampleAnswers, if_pos rfl, fun _ => rfl⟩
  obtain ⟨ws, hws, haccepted, -⟩ := hrestores.printedLine _ (List.Perm.refl _)
  obtain ⟨err, herr⟩ :=
    commandLine_rejected parseStart_rejects isAscii sampleAnswers (List.Perm.refl _) hws
  rw [haccepted] at herr
  cases herr

end Sample

end SqlServerMcp.SetupWizard
