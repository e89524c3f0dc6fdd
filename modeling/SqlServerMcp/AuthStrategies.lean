import SqlServerMcp.ConfigSchema
import SqlServerMcp.SqlValue

/-!
The three ways to log in to the server. A strategy says which fields it takes,
what it makes of them and whether credentials are still good. Credentials that a
strategy accepts or renews carry every field that a connection reads.
-/
namespace SqlServerMcp.AuthStrategies

open AssocMap ConfigSchema FixedWidth Results SqlValue Text

abbrev Credentials := Map String String
abbrev AuthConfig := Map String String

inductive AuthError where
  | missingCredentials (fields : String)
  | noActiveCredentials (method : String)
  | other (fault : Fault)
  deriving DecidableEq

/-- How the call ends for its caller, with the text of the error. -/
def AuthError.fault : AuthError → Fault
  | .missingCredentials fields => .error ("missing required credential field(s): " ++ fields)
  | .noActiveCredentials method =>
    .error ("no valid credentials for auth method '" ++ method ++ "'; run `sqlserver-mcp setup`")
  | .other fault => fault

/-- What a build fixes: its target, and whether arithmetic is checked. -/
structure Build where
  windows : Bool
  overflowChecks : Bool

structure TokenResponse where
  accessToken : String
  expiresIn : Option UInt64

/-- What a strategy finds around it: the clock in milliseconds, and the endpoint
that answers a posted form. -/
structure Outside where
  now : UInt64
  exchange : String → List (String × String) → Except String TokenResponse

structure AuthStrategy where
  authenticate : Outside → AuthConfig → Except AuthError Credentials
  refreshToken : Outside → Credentials → Except AuthError Credentials
  validateCredentials : Outside → Credentials → Bool

def require (config : AuthConfig) (field fields : String) : Except AuthError String :=
  match config.get field with
  | some value => .ok value
  | none => .error (.missingCredentials fields)

/-- A login of a name and a password, which differ in one text of an error. -/
def loginStrategy (usernameFields : String) : AuthStrategy where
  authenticate _ config := do
    let username ← require config "username" usernameFields
    let password ← require config "password" "username, password"
    return (Map.empty.insert "username" username).insert "password" password
  refreshToken _ _ := .error (.other (.error "this auth strategy does not support token refresh"))
  validateCredentials _ credentials :=
    (credentials.get "username").any (fun username => !username.isEmpty) &&
      (credentials.get "password").any (fun password => !password.isEmpty)

def sqlServerAuthStrategy : AuthStrategy := loginStrategy "username, password"

def windowsAuthStrategy : AuthStrategy :=
  loginStrategy "username (optionally DOMAIN\\user), password"

namespace AzureAd

def defaultScope : String := "https://database.windows.net/.default"

def tokenUrl (config : AuthConfig) : Except AuthError String :=
  match config.get "token_url" with
  | some url => .ok url
  | none => do
    let tenantId ← require config "tenant_id"
      "tenant_id (or token_url), client_id, client_secret"
    return "https://login.microsoftonline.com/" ++ tenantId ++ "/oauth2/v2.0/token"

/-- The end of the lifetime of a token, in 64 bits. -/
def expiresAt (build : Build) (now expiresIn : UInt64) : Except AuthError UInt64 :=
  if build.overflowChecks ∧ 2 ^ 64 ≤ expiresIn.toNat * 1000 then
    .error (.other (.panic "attempt to multiply with overflow"))
  else if build.overflowChecks ∧ 2 ^ 64 ≤ now.toNat + expiresIn.toNat * 1000 then
    .error (.other (.panic "attempt to add with overflow"))
  else .ok (now + expiresIn * 1000)

def copyField (config : AuthConfig) (credentials : Credentials) (key : String) : Credentials :=
  match config.get key with
  | some value => credentials.insert key value
  | none => credentials

def withExpiry (build : Build) (now : UInt64) (credentials : Credentials) :
    Option UInt64 → Except AuthError Credentials
  | none => .ok credentials
  | some expiresIn => (expiresAt build now expiresIn).map fun expires =>
      credentials.insert "expires_at" (toString expires.toNat)

def fromTokenResponse (build : Build) (outside : Outside) (data : TokenResponse)
    (config : AuthConfig) (tokenUrl : String) : Except AuthError Credentials := do
  let token := Map.empty.insert "access_token" data.accessToken
  let dated ← withExpiry build outside.now token data.expiresIn
  let copied := ["client_id", "client_secret", "tenant_id", "scope"].foldl (copyField config) dated
  return copied.insert "token_url" tokenUrl

def authenticate (build : Build) (outside : Outside) (config : AuthConfig) :
    Except AuthError Credentials := do
  let clientId ← require config "client_id" "client_id, client_secret, tenant_id"
  let clientSecret ← require config "client_secret" "client_id, client_secret, tenant_id"
  let url ← tokenUrl config
  let scope := (config.get "scope").getD defaultScope
  let params := [("grant_type", "client_credentials"), ("client_id", clientId),
    ("client_secret", clientSecret), ("scope", scope)]
  match outside.exchange url params with
  | .error err => .error (.other (.error err))
  | .ok response => fromTokenResponse build outside response config url

def validateCredentials (outside : Outside) (credentials : Credentials) : Bool :=
  (credentials.get "access_token").isSome &&
    match credentials.get "expires_at" with
    | none => true
    | some text =>
      match parseInt 0 (2 ^ 64) text.toList with
      | .error _ => false
      | .ok expires => (outside.now.toNat : ℤ) < expires.val

end AzureAd

/-- A refresh is the same exchange with the credentials at hand. -/
def azureAdAuthStrategy (build : Build) : AuthStrategy where
  authenticate := AzureAd.authenticate build
  refreshToken := AzureAd.authenticate build
  validateCredentials := AzureAd.validateCredentials

def strategyFor (build : Build) : AuthMethod → AuthStrategy
  | .sqlServer => sqlServerAuthStrategy
  | .windows => windowsAuthStrategy
  | .azureAd => azureAdAuthStrategy build

def envPrefix : String := "SQLSERVER"

def credentialsFromEnv (env : String → Option String) : AuthMethod → Option AuthConfig
  | .sqlServer | .windows => do
    let username ← env (envPrefix ++ "_USERNAME")
    let password ← env (envPrefix ++ "_PASSWORD")
    return (Map.empty.insert "username" username).insert "password" password
  | .azureAd => do
    let clientId ← env (envPrefix ++ "_CLIENT_ID")
    let clientSecret ← env (envPrefix ++ "_CLIENT_SECRET")
    let config := (Map.empty.insert "client_id" clientId).insert "client_secret" clientSecret
    return match env (envPrefix ++ "_TENANT_ID") with
      | some tenantId => config.insert "tenant_id" tenantId
      | none => config

/-- The fields of the credentials that a connection reads. -/
def fieldsRead : AuthMethod → List String
  | .sqlServer | .windows => ["username", "password"]
  | .azureAd => ["access_token"]

def Carries (authMethod : AuthMethod) (credentials : Credentials) : Prop :=
  ∀ field ∈ fieldsRead authMethod, ∃ value, credentials.get field = some value

theorem carries_azureAd_iff (credentials : Credentials) :
    Carries .azureAd credentials ↔ ∃ token, credentials.get "access_token" = some token :=
  List.forall_mem_singleton

theorem loginStrategy_carries {usernameFields : String} {outside : Outside}
    {credentials : Credentials}
    (h : (loginStrategy usernameFields).validateCredentials outside credentials = true) :
    ∀ field ∈ ["username", "password"], ∃ value, credentials.get field = some value := by
  obtain ⟨husername, hpassword⟩ := Bool.and_eq_true_iff.mp h
  obtain ⟨username, husername, -⟩ := (Option.any_eq_true _ _).mp husername
  obtain ⟨password, hpassword, -⟩ := (Option.any_eq_true _ _).mp hpassword
  rw [List.forall_mem_cons, List.forall_mem_singleton]
  exact ⟨⟨username, husername⟩, ⟨password, hpassword⟩⟩

namespace AzureAd

theorem get_foldl_copyField_of_notMem (config : AuthConfig) (keys : List String)
    (credentials : Credentials) {field : String} (h : field ∉ keys) :
    (keys.foldl (copyField config) credentials).get field = credentials.get field := by
  induction keys generalizing credentials with
  | nil => rfl
  | cons key rest ih =>
    rw [List.mem_cons, not_or] at h
    rw [List.foldl_cons, ih _ h.2]
    unfold copyField
    cases config.get key with
    | none => rfl
    | some value => exact Map.get_insert_of_ne credentials value h.1

theorem get_withExpiry {build : Build} {now : UInt64} {credentials dated : Credentials}
    {expiresIn : Option UInt64} (h : withExpiry build now credentials expiresIn = .ok dated)
    {field : String} (hfield : field ≠ "expires_at") :
    dated.get field = credentials.get field := by
  cases expiresIn with
  | none => rw [← Except.ok.inj h]
  | some expiresIn =>
    obtain ⟨expires, -, hdated⟩ := (map_eq_ok _ _ _).mp h
    rw [← hdated, Map.get_insert_of_ne _ _ hfield]

/-- The token of the answer stands in the credentials, whatever the configuration
adds to them. -/
theorem get_accessToken {build : Build} {outside : Outside} {data : TokenResponse}
    {config : AuthConfig} {url : String} {credentials : Credentials}
    (h : fromTokenResponse build outside data config url = .ok credentials) :
    credentials.get "access_token" = some data.accessToken := by
  unfold fromTokenResponse at h
  obtain ⟨dated, hdated, h⟩ := (bind_eq_ok _ _ _).mp h
  rw [← Except.ok.inj h, Map.get_insert_of_ne _ _ (by decide),
    get_foldl_copyField_of_notMem config _ dated (by decide),
    get_withExpiry hdated (by decide), Map.get_insert_self]

theorem authenticate_carries {build : Build} {outside : Outside} {config : AuthConfig}
    {credentials : Credentials} (h : authenticate build outside config = .ok credentials) :
    Carries .azureAd credentials := by
  unfold authenticate at h
  obtain ⟨clientId, -, h⟩ := (bind_eq_ok _ _ _).mp h
  obtain ⟨clientSecret, -, h⟩ := (bind_eq_ok _ _ _).mp h
  obtain ⟨url, -, h⟩ := (bind_eq_ok _ _ _).mp h
  dsimp only at h
  split at h
  · contradiction
  · rename_i response _
    exact (carries_azureAd_iff credentials).mpr ⟨response.accessToken, get_accessToken h⟩

end AzureAd

/-- Credentials that a strategy accepts carry the fields of its method. -/
theorem carries_of_validate {build : Build} {authMethod : AuthMethod} {outside : Outside}
    {credentials : Credentials}
    (h : (strategyFor build authMethod).validateCredentials outside credentials = true) :
    Carries authMethod credentials := by
  cases authMethod with
  | sqlServer => exact loginStrategy_carries h
  | windows => exact loginStrategy_carries h
  | azureAd =>
    rw [carries_azureAd_iff]
    exact Option.isSome_iff_exists.mp (Bool.and_eq_true_iff.mp h).1

/-- Renewed credentials carry the fields of the method, validated or not. -/
theorem carries_of_refresh {build : Build} {authMethod : AuthMethod} {outside : Outside}
    {credentials refreshed : Credentials}
    (h : (strategyFor build authMethod).refreshToken outside credentials = .ok refreshed) :
    Carries authMethod refreshed := by
  cases authMethod with
  | sqlServer => contradiction
  | windows => contradiction
  | azureAd => exact AzureAd.authenticate_carries h

end SqlServerMcp.AuthStrategies
