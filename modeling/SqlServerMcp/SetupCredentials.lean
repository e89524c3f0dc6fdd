import SqlServerMcp.AuthManager
import SqlServerMcp.JsonTexts
import SqlServerMcp.SetupWizard
import SqlServerMcp.TokenLifetime

/-!
What becomes of the credentials that the setup wizard saves. A server, restarted
any number of times, resolves its login from them or from its environment, renews
what has expired and saves what it renewed. Everything it logs in with goes back
to the wizard's answers or to an environment that it ran in.
-/
namespace SqlServerMcp.SetupCredentials

open AssocMap AuthManager AuthStrategies ConfigSchema CredentialStorage JsonTexts JsonValue Results
  Runs SqlValue TokenLifetime
open CredentialDisk (JsonMaps hexMaps hexMaps_cutShort loadFromFile)
open CredentialFile (Cipher taggingCipher)

section Texts

/-! Credentials as they are stored. -/

def credentialsJson (credentials : Credentials) : Json :=
  .obj (credentials.entries.map fun e => (e.1, .str e.2))

def renderCredentials (credentials : Credentials) : String :=
  String.ofList (render (fun _ => "") compact 0 (credentialsJson credentials))

def textMembers : Fields → Option (Entries String String)
  | [] => some []
  | (key, .str value) :: rest => (textMembers rest).map fun members => (key, value) :: members
  | _ => none

-- The message for a text that is no JSON map of strings.
variable (parseError : String → String)

def parseCredentials (text : String) : Except String Credentials :=
  match (read (fun _ => none) text.toList).bind fun v => v.asObject.bind textMembers with
  | some members => .ok (members.foldl (fun m e => m.insert e.1 e.2) Map.empty)
  | none => .error (parseError text)

theorem textMembers_strings (entries : Entries String String) :
    textMembers (entries.map fun e => (e.1, .str e.2)) = some entries := by
  induction entries with
  | nil => rfl
  | cons e rest ih =>
    rw [List.map_cons, textMembers, ih]
    rfl

theorem credentialsJson_readable (credentials : Credentials)
    (S : UInt64 → Prop) : FloatsIn S (credentialsJson credentials) := by
  obtain ⟨entries, _⟩ := credentials
  show FieldsIn S (entries.map fun e => (e.1, .str e.2))
  induction entries with
  | nil => trivial
  | cons e rest ih => exact ⟨trivial, ih (List.nodup_cons.mp ‹DistinctKeys (e :: rest)›).2⟩

theorem parse_render (credentials : Credentials) :
    parseCredentials parseError (renderCredentials credentials) = .ok credentials := by
  have hread : read (fun _ => none) (renderCredentials credentials).toList =
      some (credentialsJson credentials) := by
    rw [renderCredentials, String.toList_ofList]
    exact read_render compact 0 (credentialsJson_readable credentials _)
  have hmembers : (credentialsJson credentials).asObject.bind textMembers =
      some credentials.entries := textMembers_strings credentials.entries
  rw [parseCredentials, hread, Option.bind_some, hmembers]
  have hentries : (credentials.entries.foldl (fun m e => m.insert e.1 e.2) Map.empty).entries =
      credentials.entries := by
    rw [Map.entries_foldl_insert]
    exact extend_eq_append credentials.distinct
  exact congrArg Except.ok (Map.ext hentries)

end Texts

section Renewal

/-- The credentials that a request for credentials writes back to the store. -/
def renewal (manager : Manager) (world : World) : Option Credentials :=
  match manager.fromCache world with
  | some _ => none
  | none =>
    match manager.fromEnv world with
    | .error _ | .ok (some _) => none
    | .ok none =>
      match world.load credentialAccount with
      | .error _ | .ok none => none
      | .ok (some stored) =>
        match world.parse stored with
        | .error _ => none
        | .ok parsed =>
          if manager.strategy.validateCredentials (world.outside .stored) parsed then none
          else (manager.strategy.refreshToken (world.outside .refresh) parsed).toOption

theorem renewal_eq_some_iff (manager : Manager) (world : World) (refreshed : Credentials) :
    renewal manager world = some refreshed ↔
      ∃ stored parsed, Renews manager world stored parsed refreshed := by
  constructor
  · intro h
    unfold renewal at h
    split at h
    · contradiction
    · rename_i hcache
      split at h
      · contradiction
      · contradiction
      · rename_i henv
        split at h
        · contradiction
        · contradiction
        · rename_i stored hload
          split at h
          · contradiction
          · rename_i parsed hparse
            split at h
            · contradiction
            · rename_i hexpired
              refine ⟨stored, parsed, hcache, henv, hload, hparse,
                Bool.eq_false_iff.mpr hexpired, ?_⟩
              generalize manager.strategy.refreshToken (world.outside .refresh) parsed = outcome
                at h ⊢
              cases outcome with
              | error err => contradiction
              | ok credentials => exact congrArg Except.ok (Option.some.inj h)
  · intro h
    obtain ⟨stored, parsed, hrenews⟩ := h
    simp only [renewal, hrenews.cache, hrenews.environment, hrenews.load, hrenews.parse,
      hrenews.expired, Bool.false_eq_true, if_false, hrenews.refresh, Except.toOption]

/-- Credentials are used while they are good, or as they were just renewed. -/
def Usable (Known : Credentials → Prop) (manager : Manager) (world : World)
    (credentials : Credentials) : Prop :=
  (∃ stage, manager.strategy.validateCredentials (world.outside stage) credentials = true) ∨
    ∃ parsed, Known parsed ∧
      manager.strategy.refreshToken (world.outside .refresh) parsed = .ok credentials

theorem exists_authenticate_of_fromEnv {manager : Manager} {world : World}
    {obtained : Credentials} (h : manager.fromEnv world = .ok (some obtained)) :
    (∃ config, credentialsFromEnv world.env manager.authMethod = some config ∧
      manager.strategy.authenticate (world.outside .environment) config = .ok obtained) ∧
    manager.strategy.validateCredentials (world.outside .obtained) obtained = true := by
  unfold Manager.fromEnv at h
  split at h
  · cases h
  · rename_i config henv
    split at h
    · cases h
    · cases h
    · rename_i credentials hlogin
      split at h
      · rename_i hvalid
        obtain rfl := Option.some.inj (Except.ok.inj h)
        exact ⟨⟨config, henv, hlogin⟩, hvalid⟩
      · cases h

/-- What a request returns and what the manager holds after it are known. -/
structure Kept (Known : Credentials → Prop) (manager : Manager) (world : World)
    (result : Except AuthError Credentials × Manager) : Prop where
  returned : ∀ c, result.1 = .ok c → Known c ∧ Usable Known manager world c
  cached : ∀ c, result.2.cachedCredentials = some c → Known c

section Kept

variable {Known : Credentials → Prop} {manager : Manager} {world : World}

theorem kept_error (hcached : ∀ c, manager.cachedCredentials = some c → Known c)
    (err : AuthError) : Kept Known manager world (.error err, manager) :=
  ⟨nofun, hcached⟩

theorem kept_ok {c : Credentials} (hknown : Known c) (husable : Usable Known manager world c) :
    Kept Known manager world (.ok c, manager.setCredentials c) := by
  refine ⟨fun c' hc' => ?_, fun c' hc' => ?_⟩
  · obtain rfl := Except.ok.inj hc'
    exact ⟨hknown, husable⟩
  · obtain rfl := Option.some.inj hc'
    exact hknown

theorem kept_cacheThenSave {c : Credentials} (hknown : Known c)
    (husable : Usable Known manager world c) :
    Kept Known manager world (manager.cacheThenSave world c) := by
  unfold Manager.cacheThenSave
  split
  · exact ⟨nofun, (kept_ok hknown husable).cached⟩
  · exact kept_ok hknown husable

theorem fromStored_kept (hcached : ∀ c, manager.cachedCredentials = some c → Known c)
    {stored : String} (hparse : ∀ c, world.parse stored = .ok c → Known c)
    (hrefresh : ∀ parsed c, Known parsed →
      manager.strategy.refreshToken (world.outside .refresh) parsed = .ok c → Known c) :
    Kept Known manager world (manager.fromStored world stored) := by
  unfold Manager.fromStored
  split
  · exact kept_error hcached _
  · rename_i parsed hparsed
    have hknown := hparse parsed hparsed
    split
    · rename_i hvalid
      exact kept_ok hknown (.inl ⟨.stored, hvalid⟩)
    · split
      · exact kept_error hcached _
      · exact kept_error hcached _
      · rename_i refreshed hrefreshed
        exact kept_cacheThenSave (hrefresh parsed refreshed hknown hrefreshed)
          (.inr ⟨parsed, hknown, hrefreshed⟩)

/-- A property that logging in and renewing preserve holds of all that a request
for credentials returns and keeps. -/
theorem credentials_kept (hcached : ∀ c, manager.cachedCredentials = some c → Known c)
    (hload : ∀ stored c, world.load credentialAccount = .ok (some stored) →
      world.parse stored = .ok c → Known c)
    (henv : ∀ config c, credentialsFromEnv world.env manager.authMethod = some config →
      manager.strategy.authenticate (world.outside .environment) config = .ok c → Known c)
    (hrefresh : ∀ parsed c, Known parsed →
      manager.strategy.refreshToken (world.outside .refresh) parsed = .ok c → Known c) :
    Kept Known manager world (manager.credentials world) := by
  unfold Manager.credentials
  split
  · rename_i cached hcache
    have hheld : manager.cachedCredentials = some cached := (Option.filter_eq_some_iff.mp hcache).1
    refine ⟨fun c hc => ?_, hcached⟩
    obtain rfl := Except.ok.inj hc
    exact ⟨hcached cached hheld, .inl ⟨.cached, valid_of_fromCache hcache⟩⟩
  · split
    · exact kept_error hcached _
    · rename_i obtained hobtained
      obtain ⟨⟨config, hconfig, hlogin⟩, hvalid⟩ := exists_authenticate_of_fromEnv hobtained
      exact kept_ok (henv config obtained hconfig hlogin) (.inl ⟨.obtained, hvalid⟩)
    · split
      · exact kept_error hcached _
      · exact kept_error hcached _
      · rename_i stored hstored
        exact fromStored_kept hcached (fun c => hload stored c hstored) hrefresh

end Kept

end Renewal

section Tokens

def tenantUrl (tenantId : String) : String :=
  "https://login.microsoftonline.com/" ++ tenantId ++ "/oauth2/v2.0/token"

def clientParams (clientId clientSecret : String) : List (String × String) :=
  [("grant_type", "client_credentials"), ("client_id", clientId),
    ("client_secret", clientSecret), ("scope", AzureAd.defaultScope)]

/-- The token endpoint of the source's tenant gave this answer to its client. -/
def Granted (source : AuthConfig) (outside : Outside) (response : TokenResponse) : Prop :=
  ∃ clientId clientSecret tenantId, source.get "client_id" = some clientId ∧
    source.get "client_secret" = some clientSecret ∧ source.get "tenant_id" = some tenantId ∧
    outside.exchange (tenantUrl tenantId) (clientParams clientId clientSecret) = .ok response

/-- The credentials stand for the client of a source: an exchange that starts from
them is one for the source's client at its tenant. -/
structure SameClient (source credentials : AuthConfig) : Prop where
  clientId : credentials.get "client_id" = source.get "client_id"
  clientSecret : credentials.get "client_secret" = source.get "client_secret"
  scope : credentials.get "scope" = none
  url : (credentials.get "token_url" = none ∧
      credentials.get "tenant_id" = source.get "tenant_id") ∨
    ∃ tenantId, source.get "tenant_id" = some tenantId ∧
      credentials.get "token_url" = some (tenantUrl tenantId)

/-- The credentials hold the token of an answer and the end of its lifetime. -/
structure Issued (build : Build) (source : AuthConfig) (outside : Outside)
    (response : TokenResponse) (credentials : Credentials) : Prop where
  granted : Granted source outside response
  token : credentials.get "access_token" = some response.accessToken
  expiry : ∀ expiresIn, response.expiresIn = some expiresIn →
    ∃ expires, AzureAd.expiresAt build outside.now expiresIn = .ok expires ∧
      credentials.get "expires_at" = some (toString expires.toNat)

theorem get_foldl_copyField (config : AuthConfig) (keys : List String) (credentials : Credentials)
    {field : String} (h : field ∈ keys) :
    (keys.foldl (AzureAd.copyField config) credentials).get field =
      (config.get field).or (credentials.get field) := by
  induction keys generalizing credentials with
  | nil => contradiction
  | cons key rest ih =>
    rw [List.foldl_cons]
    have hhead : (AzureAd.copyField config credentials key).get field =
        if field = key then (config.get field).or (credentials.get field)
        else credentials.get field := by
      unfold AzureAd.copyField
      by_cases hkey : field = key
      · subst hkey
        cases config.get field <;> simp
      · cases config.get key <;> simp [hkey, Map.get_insert]
    by_cases hrest : field ∈ rest
    · rw [ih _ hrest, hhead]
      split
      · cases config.get field <;> rfl
      · rfl
    · rw [AzureAd.get_foldl_copyField_of_notMem config rest _ hrest, hhead,
        if_pos ((List.mem_cons.mp h).resolve_right hrest)]

variable {build : Build} {outside : Outside} {source config : AuthConfig}
  {credentials : Credentials}

/-- The fields that an exchange takes over from its configuration. -/
theorem get_copied {data : TokenResponse} {url field : String}
    (h : AzureAd.fromTokenResponse build outside data config url = .ok credentials)
    (hfield : field ∈ ["client_id", "client_secret", "tenant_id", "scope"]) :
    credentials.get field = config.get field := by
  have hother : field ≠ "token_url" ∧ field ≠ "expires_at" ∧ field ≠ "access_token" := by
    revert field
    decide
  obtain ⟨dated, hdated, hcredentials⟩ := (bind_eq_ok _ _ _).mp h
  rw [← Except.ok.inj hcredentials, Map.get_insert_of_ne _ _ hother.1,
    get_foldl_copyField config _ dated hfield, AzureAd.get_withExpiry hdated hother.2.1,
    Map.get_insert_of_ne _ _ hother.2.2, Map.get_empty, Option.or_none]

theorem tokenUrl_of_sameClient (hclient : SameClient source config) {url : String}
    (h : AzureAd.tokenUrl config = .ok url) :
    ∃ tenantId, source.get "tenant_id" = some tenantId ∧ url = tenantUrl tenantId := by
  obtain ⟨hnone, htenant⟩ | ⟨tenantId, htenant, hurl⟩ := hclient.url
  · simp only [AzureAd.tokenUrl, hnone, require, htenant] at h
    cases hget : source.get "tenant_id" with
    | none =>
      rw [hget] at h
      cases h
    | some tenantId =>
      rw [hget] at h
      exact ⟨tenantId, rfl, (Except.ok.inj h).symm⟩
  · simp only [AzureAd.tokenUrl, hurl] at h
    exact ⟨tenantId, htenant, (Except.ok.inj h).symm⟩

theorem get_of_require {fields field value : String}
    (h : require config field fields = .ok value) : config.get field = some value := by
  unfold require at h
  split at h
  · rename_i found hfound
    rw [hfound, Except.ok.inj h]
  · contradiction

theorem get_tokenUrl {data : TokenResponse} {url : String}
    (h : AzureAd.fromTokenResponse build outside data config url = .ok credentials) :
    credentials.get "token_url" = some url := by
  obtain ⟨dated, -, hcredentials⟩ := (bind_eq_ok _ _ _).mp h
  rw [← Except.ok.inj hcredentials, Map.get_insert_self]

/-- An exchange for the client of a source gives credentials for it again, with a
token that was issued to it. -/
theorem issued_of_authenticate (hclient : SameClient source config)
    (h : AzureAd.authenticate build outside config = .ok credentials) :
    SameClient source credentials ∧
      ∃ response, Issued build source outside response credentials := by
  unfold AzureAd.authenticate at h
  obtain ⟨clientId, hid, h⟩ := (bind_eq_ok _ _ _).mp h
  obtain ⟨clientSecret, hsecret, h⟩ := (bind_eq_ok _ _ _).mp h
  obtain ⟨url, hurl, h⟩ := (bind_eq_ok _ _ _).mp h
  obtain ⟨tenantId, htenant, rfl⟩ := tokenUrl_of_sameClient hclient hurl
  simp only [hclient.scope, Option.getD_none] at h
  split at h
  · contradiction
  · rename_i response hresponse
    have hgranted : Granted source outside response := by
      refine ⟨clientId, clientSecret, tenantId, ?_, ?_, htenant, hresponse⟩
      · rw [← hclient.clientId]
        exact get_of_require hid
      · rw [← hclient.clientSecret]
        exact get_of_require hsecret
    refine ⟨⟨?_, ?_, ?_, ?_⟩, response, hgranted, AzureAd.get_accessToken h, ?_⟩
    · exact (get_copied h (by decide)).trans hclient.clientId
    · exact (get_copied h (by decide)).trans hclient.clientSecret
    · exact (get_copied h (by decide)).trans hclient.scope
    · exact .inr ⟨tenantId, htenant, get_tokenUrl h⟩
    · intro expiresIn hlifetime
      obtain ⟨accessToken, lifetime⟩ := response
      obtain rfl : lifetime = some expiresIn := hlifetime
      exact get_expiresAt h

end Tokens

section Machine

/-- The surroundings of one request: the environment, the clock and the token
endpoint at each stage, and the stores of credentials. -/
structure Turn where
  env : String → Option String
  outside : Stage → Outside
  storageEnv : Env

structure Machine where
  storage : Storage
  manager : Manager

inductive Event where
  | restart
  | resolve (turn : Turn)

def turns (events : List Event) : List Turn :=
  events.filterMap fun e => match e with
    | .restart => none
    | .resolve turn => some turn

variable (build : Build) (json : JsonMaps) (cipher : Cipher) (parseError : String → String)

def Turn.world (storage : Storage) (turn : Turn) : World where
  env := turn.env
  outside := turn.outside
  load := loadCredential json cipher turn.storageEnv storage
  save account value := (saveCredential json cipher turn.storageEnv storage account value).1
  parse := parseCredentials parseError
  render := renderCredentials

/-- The stores after a request for credentials. -/
def storageAfter (m : Machine) (turn : Turn) : Storage :=
  match renewal m.manager (turn.world json cipher parseError m.storage) with
  | some refreshed => (saveCredential json cipher turn.storageEnv m.storage credentialAccount
      (renderCredentials refreshed)).2
  | none => m.storage

def step (authMethod : AuthMethod) (m : Machine) : Event → Option Machine
  | .restart => some { m with manager := Manager.new build authMethod }
  | .resolve turn => some ⟨storageAfter json cipher parseError m turn,
      (resolveTdsAuth build m.manager (turn.world json cipher parseError m.storage)).2⟩

/-- The wizard's credentials and a server that has just started. -/
def afterSetup (answers : SetupWizard.Credentials) (setupEnv : Env) : Machine where
  storage := (saveCredential json cipher setupEnv Storage.empty credentialAccount
    (renderCredentials (SetupWizard.promptCredentials answers))).2
  manager := Manager.new build answers.authMethod

/-- The wizard's answers and the environments of the requests. -/
def sources (answers : SetupWizard.Credentials) (past : List Turn) : List AuthConfig :=
  SetupWizard.promptCredentials answers ::
    past.filterMap fun turn => credentialsFromEnv turn.env answers.authMethod

/-- Credentials that go back to a source. -/
def Known (answers : SetupWizard.Credentials) (past : List Turn) (c : Credentials) : Prop :=
  ∃ source ∈ sources answers past,
    match answers.authMethod with
    | .sqlServer | .windows =>
      c.get "username" = source.get "username" ∧ c.get "password" = source.get "password"
    | .azureAd => SameClient source c ∧ (c.get "access_token" = none ∨
        ∃ turn ∈ past, ∃ stage response, Issued build source (turn.outside stage) response c)

variable {build json cipher parseError} {answers : SetupWizard.Credentials} {past : List Turn}

theorem Known.mono {c : Credentials} (h : Known build answers past c) (turn : Turn) :
    Known build answers (past ++ [turn]) c := by
  obtain ⟨source, hsource, hknown⟩ := h
  have hsource' : source ∈ sources answers (past ++ [turn]) := by
    rw [sources, List.filterMap_append, ← List.cons_append]
    exact List.mem_append_left _ hsource
  refine ⟨source, hsource', ?_⟩
  split at hknown
  · exact hknown
  · exact hknown
  · exact ⟨hknown.1, hknown.2.imp_right fun ⟨turn', hturn', hissued⟩ =>
      ⟨turn', List.mem_append_left _ hturn', hissued⟩⟩

/-- A map without a token and without an address to get one from. -/
def Plain (config : AuthConfig) : Prop :=
  ∀ field ∈ ["scope", "token_url", "access_token"], config.get field = none

theorem plain_empty : Plain Map.empty := fun _ _ => rfl

theorem Plain.insert {config : AuthConfig} (h : Plain config) {key : String}
    (hkey : key ∉ ["scope", "token_url", "access_token"]) (value : String) :
    Plain (config.insert key value) := by
  intro field hfield
  have hne : field ≠ key := fun heq => hkey (heq ▸ hfield)
  rw [Map.get_insert_of_ne _ _ hne]
  exact h field hfield

theorem plain_client (clientId clientSecret : String) :
    Plain ((Map.empty.insert "client_id" clientId).insert "client_secret" clientSecret) :=
  (plain_empty.insert (by decide) clientId).insert (by decide) clientSecret

theorem plain_promptCredentials (answers : SetupWizard.Credentials) :
    Plain (SetupWizard.promptCredentials answers) := by
  cases answers with
  | sqlServer username password | windows username password =>
    exact (plain_empty.insert (by decide) username).insert (by decide) password
  | azureAd clientId clientSecret tenantId =>
    have hclient := plain_client clientId clientSecret
    unfold SetupWizard.promptCredentials
    simp only []
    split
    · exact hclient
    · exact hclient.insert (by decide) tenantId

theorem plain_credentialsFromEnv {env : String → Option String} {authMethod : AuthMethod}
    {config : AuthConfig} (h : credentialsFromEnv env authMethod = some config) :
    Plain config := by
  unfold credentialsFromEnv at h
  split at h
  · obtain ⟨username, -, h⟩ := Option.bind_eq_some_iff.mp h
    obtain ⟨password, -, h⟩ := Option.bind_eq_some_iff.mp h
    rw [← Option.some.inj h]
    exact (plain_empty.insert (by decide) username).insert (by decide) password
  · obtain ⟨username, -, h⟩ := Option.bind_eq_some_iff.mp h
    obtain ⟨password, -, h⟩ := Option.bind_eq_some_iff.mp h
    rw [← Option.some.inj h]
    exact (plain_empty.insert (by decide) username).insert (by decide) password
  · obtain ⟨clientId, -, h⟩ := Option.bind_eq_some_iff.mp h
    obtain ⟨clientSecret, -, h⟩ := Option.bind_eq_some_iff.mp h
    rw [← Option.some.inj h]
    have hclient := plain_client clientId clientSecret
    split
    · rename_i tenantId _
      exact hclient.insert (by decide) tenantId
    · exact hclient

theorem plain_source {source : AuthConfig} (h : source ∈ sources answers past) :
    Plain source := by
  rcases List.mem_cons.mp h with rfl | henv
  · exact plain_promptCredentials answers
  · obtain ⟨turn, -, hconfig⟩ := List.mem_filterMap.mp henv
    exact plain_credentialsFromEnv hconfig

theorem known_source {source : AuthConfig} (h : source ∈ sources answers past) :
    Known build answers past source := by
  have hplain := plain_source h
  refine ⟨source, h, ?_⟩
  split
  · exact ⟨rfl, rfl⟩
  · exact ⟨rfl, rfl⟩
  · exact ⟨⟨rfl, rfl, hplain "scope" (by decide), .inl ⟨hplain "token_url" (by decide), rfl⟩⟩,
      .inl (hplain "access_token" (by decide))⟩

theorem get_of_login {usernameFields : String} {outside : Outside} {config c : AuthConfig}
    (h : (loginStrategy usernameFields).authenticate outside config = .ok c) :
    c.get "username" = config.get "username" ∧ c.get "password" = config.get "password" := by
  obtain ⟨username, husername, h⟩ := (bind_eq_ok _ _ _).mp h
  obtain ⟨password, hpassword, h⟩ := (bind_eq_ok _ _ _).mp h
  rw [← Except.ok.inj h, get_of_require husername, get_of_require hpassword]
  exact ⟨rfl, rfl⟩

/-- Logging in with known credentials gives known ones. -/
theorem known_authenticate {turn : Turn} (hturn : turn ∈ past) (stage : Stage)
    {config c : Credentials} (hconfig : Known build answers past config)
    (h : (strategyFor build answers.authMethod).authenticate (turn.outside stage) config = .ok c) :
    Known build answers past c := by
  obtain ⟨source, hsource, hknown⟩ := hconfig
  refine ⟨source, hsource, ?_⟩
  cases hmethod : answers.authMethod with
  | sqlServer | windows =>
    rw [hmethod] at h hknown
    obtain ⟨husername, hpassword⟩ := get_of_login h
    exact ⟨husername.trans hknown.1, hpassword.trans hknown.2⟩
  | azureAd =>
    rw [hmethod] at h hknown
    obtain ⟨hclient, response, hissued⟩ := issued_of_authenticate hknown.1 h
    exact ⟨hclient, .inr ⟨turn, hturn, stage, response, hissued⟩⟩

theorem known_refresh {turn : Turn} (hturn : turn ∈ past) (stage : Stage)
    {parsed c : Credentials} (hparsed : Known build answers past parsed)
    (h : (strategyFor build answers.authMethod).refreshToken (turn.outside stage) parsed = .ok c) :
    Known build answers past c := by
  refine known_authenticate hturn stage hparsed ?_
  cases hmethod : answers.authMethod with
  | sqlServer | windows =>
    rw [hmethod] at h
    contradiction
  | azureAd =>
    rw [hmethod] at h
    exact h

/-- Everything that a machine holds under the account of the credentials is known. -/
structure Sound (build : Build) (json : JsonMaps) (cipher : Cipher)
    (answers : SetupWizard.Credentials) (past : List Turn) (m : Machine) : Prop where
  made : MadeFor build answers.authMethod m.manager
  cached : ∀ c, m.manager.cachedCredentials = some c → Known build answers past c
  keychain : ∀ text, m.storage.keychain.get credentialAccount = some text →
    ∃ c, text = renderCredentials c ∧ Known build answers past c
  file : ∀ text, loadFromFile json cipher m.storage.file credentialAccount = .ok (some text) →
    ∃ c, text = renderCredentials c ∧ Known build answers past c

theorem Sound.mono {m : Machine} (h : Sound build json cipher answers past m) (turn : Turn) :
    Sound build json cipher answers (past ++ [turn]) m where
  made := h.made
  cached c hc := (h.cached c hc).mono turn
  keychain text htext := by
    obtain ⟨c, heq, hknown⟩ := h.keychain text htext
    exact ⟨c, heq, hknown.mono turn⟩
  file text htext := by
    obtain ⟨c, heq, hknown⟩ := h.file text htext
    exact ⟨c, heq, hknown.mono turn⟩

/-- Saving known credentials keeps the stores sound. -/
theorem Sound.save (hcut : json.CutShort) {m : Machine}
    (h : Sound build json cipher answers past m) {c : Credentials}
    (hknown : Known build answers past c) (env : Env) :
    Sound build json cipher answers past
      { m with storage := (saveCredential json cipher env m.storage credentialAccount
          (renderCredentials c)).2 } where
  made := h.made
  cached := h.cached
  keychain text htext := by
    rw [keychain_save] at htext
    split at htext
    · exact ⟨c, (Option.some.inj htext).symm, hknown⟩
    · exact h.keychain text htext
  file text htext := by
    rw [file_save _ _ _ _ _ _ hcut] at htext
    cases hleft : leaves json cipher false credentialAccount
        (m.storage, ⟨env, .save credentialAccount (renderCredentials c)⟩) with
    | none =>
      rw [hleft] at htext
      exact h.file text htext
    | some left =>
      rw [hleft] at htext
      obtain rfl := Except.ok.inj htext
      rcases leaves_save hleft with hvalue | hnone
      · exact ⟨c, Option.some.inj hvalue, hknown⟩
      · contradiction

theorem sound_afterSetup (hcut : json.CutShort) (setupEnv : Env) :
    Sound build json cipher answers [] (afterSetup build json cipher answers setupEnv) := by
  have hempty :
      Sound build json cipher answers [] ⟨Storage.empty, Manager.new build answers.authMethod⟩ :=
    { made := ⟨rfl, rfl⟩
      cached := nofun
      keychain := nofun
      file := nofun }
  exact hempty.save hcut (known_source List.mem_cons_self) setupEnv

/-- What a request loads is known. -/
theorem known_of_load {m : Machine} (h : Sound build json cipher answers past m) {turn : Turn}
    {stored : String} {c : Credentials}
    (hload : (turn.world json cipher parseError m.storage).load credentialAccount =
      .ok (some stored))
    (hparse : (turn.world json cipher parseError m.storage).parse stored = .ok c) :
    Known build answers past c := by
  have htext : ∃ c', stored = renderCredentials c' ∧ Known build answers past c' := by
    have hstored : loadCredential json cipher turn.storageEnv m.storage credentialAccount =
      .ok (some stored) := hload
    unfold loadCredential at hstored
    split at hstored
    · rename_i password hpassword
      refine h.keychain stored ?_
      unfold getPassword at hpassword
      split at hpassword
      · split at hpassword
        · rename_i found hfound
          rw [hfound, Except.ok.inj hpassword]
          exact Except.ok.inj hstored
        · contradiction
      · contradiction
    · exact h.file stored hstored
  obtain ⟨c', rfl, hknown⟩ := htext
  have hsame : Except.ok c' = Except.ok c := (parse_render parseError c').symm.trans hparse
  rwa [← Except.ok.inj hsame]

theorem kept_of_sound {m : Machine} (h : Sound build json cipher answers past m) (turn : Turn) :
    Kept (Known build answers (past ++ [turn])) m.manager
      (turn.world json cipher parseError m.storage)
      (m.manager.credentials (turn.world json cipher parseError m.storage)) := by
  have hsound := h.mono turn
  have hturn : turn ∈ past ++ [turn] := List.mem_append_right _ List.mem_cons_self
  apply credentials_kept hsound.cached
  · intro stored c hload hparse
    exact known_of_load hsound hload hparse
  · intro config c hconfig hlogin
    rw [h.made.method] at hconfig
    rw [h.made.strategy] at hlogin
    refine known_authenticate hturn .environment (known_source ?_) hlogin
    exact List.mem_cons_of_mem _ (List.mem_filterMap.mpr ⟨turn, hturn, hconfig⟩)
  · intro parsed c hparsed hrefresh
    rw [h.made.strategy] at hrefresh
    exact known_refresh hturn .refresh hparsed hrefresh

theorem known_renewal {m : Machine} (h : Sound build json cipher answers past m) {turn : Turn}
    {c : Credentials}
    (hrenewal : renewal m.manager (turn.world json cipher parseError m.storage) = some c) :
    Known build answers (past ++ [turn]) c := by
  obtain ⟨stored, parsed, hrenews⟩ := (renewal_eq_some_iff _ _ _).mp hrenewal
  have hparsed := known_of_load (h.mono turn) hrenews.load hrenews.parse
  have hrefresh := hrenews.refresh
  rw [h.made.strategy] at hrefresh
  exact known_refresh (List.mem_append_right _ List.mem_cons_self) .refresh hparsed hrefresh

/-- One step keeps what is held known. -/
theorem Sound.step (hcut : json.CutShort) {m m' : Machine}
    (h : Sound build json cipher answers past m) {e : Event}
    (hstep : SetupCredentials.step build json cipher parseError answers.authMethod m e = some m') :
    Sound build json cipher answers (past ++ turns [e]) m' := by
  cases e with
  | restart =>
    obtain rfl := Option.some.inj hstep
    rw [show turns [Event.restart] = [] from rfl, List.append_nil]
    exact { made := ⟨rfl, rfl⟩, cached := nofun, keychain := h.keychain, file := h.file }
  | resolve turn =>
    obtain rfl := Option.some.inj hstep
    have hstores : Sound build json cipher answers (past ++ [turn])
        { m with storage := storageAfter json cipher parseError m turn } := by
      unfold storageAfter
      cases hrenewal : renewal m.manager (turn.world json cipher parseError m.storage) with
      | none => exact h.mono turn
      | some refreshed => exact (h.mono turn).save hcut (known_renewal h hrenewal) turn.storageEnv
    exact
      { made := madeFor_perform h.made (turn.world json cipher parseError m.storage) .credentials
        cached := (kept_of_sound h turn).cached
        keychain := hstores.keychain
        file := hstores.file }

theorem Sound.run (hcut : json.CutShort) {m m' : Machine}
    (h : Sound build json cipher answers past m) {events : List Event}
    (hrun : Runs.run (SetupCredentials.step build json cipher parseError answers.authMethod) m
      events = some m') : Sound build json cipher answers (past ++ turns events) m' := by
  induction events generalizing m past with
  | nil =>
    obtain rfl := Option.some.inj hrun
    rwa [show turns [] = [] from rfl, List.append_nil]
  | cons e rest ih =>
    obtain ⟨m₁, hstep, hrest⟩ := exists_step_of_run hrun
    have hturns : turns (e :: rest) = turns [e] ++ turns rest := by
      rw [← List.singleton_append, turns, List.filterMap_append]
      rfl
    rw [hturns, ← List.append_assoc]
    exact ih (h.step hcut hstep) hrest

/-- The login that a source names. -/
def LoginOf (source : AuthConfig) (username password : String) : Prop :=
  source.get "username" = some username ∧ source.get "password" = some password ∧
    username ≠ "" ∧ password ≠ ""

/-- The token was issued to the client of the source, and either by this request or
with a lifetime that has not ended. -/
def TokenOf (build : Build) (source : AuthConfig) (past : List Turn) (turn : Turn)
    (token : String) : Prop :=
  ∃ issuing ∈ past ++ [turn], ∃ stage response,
    Granted source (issuing.outside stage) response ∧ response.accessToken = token ∧
    ((issuing = turn ∧ stage = .refresh) ∨
      ∀ expiresIn, response.expiresIn = some expiresIn → ∃ expires later,
        AzureAd.expiresAt build (issuing.outside stage).now expiresIn = .ok expires ∧
          (turn.outside later).now.toNat < expires.toNat)

/-- What a connection logs in with comes from the source. -/
def Authorized (build : Build) (authMethod : AuthMethod) (source : AuthConfig)
    (past : List Turn) (turn : Turn) (auth : TdsAuth) : Prop :=
  match authMethod, auth with
  | .sqlServer, .sqlServer username password => LoginOf source username password
  | .windows, .windows username password =>
    build.windows = true ∧ LoginOf source username password
  | .azureAd, .aadToken token => TokenOf build source past turn token
  | _, _ => False

theorem loginOf_of_valid {usernameFields username password : String} {outside : Outside}
    {source : AuthConfig} {c : Credentials}
    (hsame : c.get "username" = source.get "username" ∧ c.get "password" = source.get "password")
    (hvalid : (loginStrategy usernameFields).validateCredentials outside c = true)
    (husername : c.get "username" = some username) (hpassword : c.get "password" = some password) :
    LoginOf source username password := by
  obtain ⟨hname, hword⟩ := Bool.and_eq_true_iff.mp hvalid
  rw [husername, Option.any_some] at hname
  rw [hpassword, Option.any_some] at hword
  refine ⟨hsame.1 ▸ husername, hsame.2 ▸ hpassword, ?_, ?_⟩
  · rintro rfl
    contradiction
  · rintro rfl
    contradiction

theorem tokenOf_of_valid {turn : Turn} {stage later : Stage} {issuing : Turn}
    (hissuing : issuing ∈ past ++ [turn]) {source : AuthConfig} {response : TokenResponse}
    {c : Credentials} (hissued : Issued build source (issuing.outside stage) response c)
    (hvalid : AzureAd.validateCredentials (turn.outside later) c = true) :
    TokenOf build source past turn response.accessToken := by
  refine ⟨issuing, hissuing, stage, response, hissued.granted, rfl, .inr ?_⟩
  intro expiresIn hlifetime
  obtain ⟨expires, hexpires, hget⟩ := hissued.expiry expiresIn hlifetime
  exact ⟨expires, later, hexpires, (validateCredentials_iff _ hissued.token hget).mp hvalid⟩

theorem authorized_of_known {turn : Turn} {manager : Manager} {world : World}
    (hmade : MadeFor build answers.authMethod manager) (hworld : world.outside = turn.outside)
    {c : Credentials} (hknown : Known build answers (past ++ [turn]) c)
    (husable : Usable (Known build answers (past ++ [turn])) manager world c) {auth : TdsAuth}
    (hauth : tdsAuth build answers.authMethod c = .ok auth) :
    ∃ source ∈ sources answers (past ++ [turn]),
      Authorized build answers.authMethod source past turn auth := by
  rw [Usable, hmade.strategy, hworld] at husable
  cases hmethod : answers.authMethod with
  | sqlServer =>
    obtain ⟨source, hsource, hsame⟩ := hknown
    rw [hmethod] at husable hauth hsame
    obtain ⟨stage, hvalid⟩ := husable.resolve_right fun ⟨_, _, hrefresh⟩ => nomatch hrefresh
    obtain ⟨username, husername, hauth⟩ := (bind_eq_ok _ _ _).mp hauth
    obtain ⟨password, hpassword, hauth⟩ := (bind_eq_ok _ _ _).mp hauth
    obtain rfl := Except.ok.inj hauth
    exact ⟨source, hsource, loginOf_of_valid hsame hvalid (get_of_require husername)
      (get_of_require hpassword)⟩
  | windows =>
    obtain ⟨source, hsource, hsame⟩ := hknown
    rw [hmethod] at husable hauth hsame
    obtain ⟨stage, hvalid⟩ := husable.resolve_right fun ⟨_, _, hrefresh⟩ => nomatch hrefresh
    obtain ⟨username, husername, hauth⟩ := (bind_eq_ok _ _ _).mp hauth
    obtain ⟨password, hpassword, hauth⟩ := (bind_eq_ok _ _ _).mp hauth
    unfold windowsAuthMethod at hauth
    split at hauth
    · rename_i hwindows
      obtain rfl := Except.ok.inj hauth
      exact ⟨source, hsource, hwindows, loginOf_of_valid hsame hvalid (get_of_require husername)
        (get_of_require hpassword)⟩
    · contradiction
  | azureAd =>
    rw [hmethod] at husable hauth
    obtain ⟨token, htoken, hauth⟩ := (bind_eq_ok _ _ _).mp hauth
    obtain rfl := Except.ok.inj hauth
    have hget := get_of_require htoken
    obtain ⟨stage, hvalid⟩ | ⟨parsed, hparsed, hrefresh⟩ := husable
    · obtain ⟨source, hsource, hsame⟩ := hknown
      rw [hmethod] at hsame
      obtain hnone | ⟨issuing, hissuing, at_, response, hissued⟩ := hsame.2
      · rw [hget] at hnone
        contradiction
      · have hresponse : response.accessToken = token :=
          Option.some.inj (hissued.token.symm.trans hget)
        exact ⟨source, hsource, hresponse ▸ tokenOf_of_valid hissuing hissued hvalid⟩
    · -- The token was issued by this very request.
      obtain ⟨source, hsource, hsame⟩ := hparsed
      rw [hmethod] at hsame
      obtain ⟨-, response, hissued⟩ := issued_of_authenticate hsame.1 hrefresh
      have hresponse : response.accessToken = token :=
        Option.some.inj (hissued.token.symm.trans hget)
      exact ⟨source, hsource, turn, List.mem_append_right _ List.mem_cons_self, .refresh, response,
        hissued.granted, hresponse, .inl ⟨rfl, rfl⟩⟩

/-- After a setup, whatever a server logs in with comes from the wizard's answers
or from an environment that a request has seen. -/
theorem authorized_after_setup (build : Build) (json : JsonMaps) (cipher : Cipher)
    (hcut : json.CutShort) (parseError : String → String) (answers : SetupWizard.Credentials)
    (setupEnv : Env) (events : List Event) (m : Machine)
    (hrun : run (step build json cipher parseError answers.authMethod)
      (afterSetup build json cipher answers setupEnv) events = some m)
    (turn : Turn) (auth : TdsAuth)
    (hauth : (resolveTdsAuth build m.manager (turn.world json cipher parseError m.storage)).1 =
      .ok auth) :
    ∃ source ∈ sources answers (turns events ++ [turn]),
      Authorized build answers.authMethod source (turns events) turn auth := by
  have hsound : Sound build json cipher answers (turns events) m := by
    simpa using (sound_afterSetup hcut setupEnv).run hcut hrun
  obtain ⟨c, hc, hdriver⟩ := (bind_eq_ok _ _ _).mp hauth
  obtain ⟨hknown, husable⟩ := (kept_of_sound hsound turn).returned c hc
  rw [hsound.made.method] at hdriver
  exact authorized_of_known hsound.made rfl hknown husable hdriver

end Machine

/-! A server that was set up for a client of Azure AD and restarted. -/

def clientAnswers : SetupWizard.Credentials := .azureAd "app" "s3cr3t" "contoso"

def tokenEndpoint (url : String) (params : List (String × String)) :
    Except String TokenResponse :=
  if url = tenantUrl "contoso" ∧ params = clientParams "app" "s3cr3t" then
    .ok ⟨"eyJ0", some 3600⟩
  else .error "401 Unauthorized"

def sampleTurn : Turn := ⟨fun _ => none, fun _ => ⟨1000, tokenEndpoint⟩, sampleEnv true .done⟩

theorem authorized_after_setup_token :
    ∃ source ∈ sources clientAnswers (turns [.restart] ++ [sampleTurn]),
      Authorized ⟨false, false⟩ .azureAd source (turns [.restart]) sampleTurn
        (.aadToken "eyJ0") := by
  let m := afterSetup ⟨false, false⟩ hexMaps taggingCipher clientAnswers (sampleEnv true .done)
  let world := sampleTurn.world hexMaps taggingCipher id m.storage
  let saved := SetupWizard.promptCredentials clientAnswers
  have hload : world.load credentialAccount = .ok (some (renderCredentials saved)) := rfl
  have hparse : world.parse (renderCredentials saved) = .ok saved := parse_render id saved
  have hrefresh : ∃ refreshed,
      m.manager.strategy.refreshToken (world.outside .refresh) saved = .ok refreshed ∧
        refreshed.get "access_token" = some "eyJ0" := ⟨_, rfl, rfl⟩
  obtain ⟨refreshed, hrefresh, hget⟩ := hrefresh
  have hrenews : Renews m.manager world (renderCredentials saved) saved refreshed :=
    ⟨rfl, rfl, hload, hparse, rfl, hrefresh⟩
  have hresolved : (m.manager.credentials world).1 = .ok refreshed := by
    rw [credentials_of_renews hrenews]
    rfl
  have htoken : (resolveTdsAuth ⟨false, false⟩ m.manager world).1 = .ok (.aadToken "eyJ0") := by
    have hdriver : tdsAuth ⟨false, false⟩ .azureAd refreshed = .ok (.aadToken "eyJ0") := by
      rw [tdsAuth, require, hget]
      rfl
    show (m.manager.credentials world).1 >>= _ = _
    rw [hresolved]
    exact hdriver
  exact authorized_after_setup ⟨false, false⟩ hexMaps taggingCipher hexMaps_cutShort id
    clientAnswers (sampleEnv true .done) [.restart] m rfl sampleTurn _ htoken

end SqlServerMcp.SetupCredentials
