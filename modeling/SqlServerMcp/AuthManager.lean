import SqlServerMcp.AuthStrategies
import SqlServerMcp.CredentialStorage
import SqlServerMcp.JsonValue
import SqlServerMcp.Runs

/-!
The credentials of the one identity that the server connects with. They come from
memory, from the environment or from the store, in this order, and are kept in
memory. What a connection reads of them is always there.
-/
namespace SqlServerMcp.AuthManager

open AssocMap AuthStrategies ConfigSchema CredentialStorage JsonValue Results Runs SqlValue
open CredentialDisk (JsonMaps hexMaps saveToFile_of_not_canSave)
open CredentialFile (Cipher taggingCipher zeroNonce)

def credentialAccount : String := "active-credentials"

/-- The places of a call where a strategy is asked. -/
inductive Stage where
  | login
  | cached
  | environment
  | obtained
  | stored
  | refresh

/-- Everything that a call finds outside the manager. -/
structure World where
  env : String → Option String
  outside : Stage → Outside
  load : String → Except Fault (Option String)
  save : String → String → Except Fault Unit
  parse : String → Except String Credentials
  render : Credentials → String

structure Manager where
  authMethod : AuthMethod
  strategy : AuthStrategy
  cachedCredentials : Option Credentials

/-- The name of a method as `{:?}` prints it. -/
def debugName : AuthMethod → String
  | .sqlServer => "SqlServer"
  | .windows => "Windows"
  | .azureAd => "AzureAd"

namespace Manager

def new (build : Build) (authMethod : AuthMethod) : Manager where
  authMethod := authMethod
  strategy := strategyFor build authMethod
  cachedCredentials := none

variable (manager : Manager) (world : World)

def setCredentials (credentials : Credentials) : Manager :=
  { manager with cachedCredentials := some credentials }

/-- The cache is assigned first and the store is written after it. -/
def cacheThenSave (credentials : Credentials) : Except AuthError Credentials × Manager :=
  match world.save credentialAccount (world.render credentials) with
  | .error fault => (.error (.other fault), manager.setCredentials credentials)
  | .ok _ => (.ok credentials, manager.setCredentials credentials)

def login (config : AuthConfig) : Except AuthError Credentials × Manager :=
  match manager.strategy.authenticate (world.outside .login) config with
  | .error err => (.error err, manager)
  | .ok credentials => manager.cacheThenSave world credentials

def fromCache : Option Credentials :=
  manager.cachedCredentials.filter
    (manager.strategy.validateCredentials (world.outside .cached))

/-- What the environment gives, if anything. An error of the strategy counts as
nothing; a panic goes on to the caller. -/
def fromEnv : Except AuthError (Option Credentials) :=
  match credentialsFromEnv world.env manager.authMethod with
  | none => .ok none
  | some config =>
    match manager.strategy.authenticate (world.outside .environment) config with
    | .error (.other (.panic message)) => .error (.other (.panic message))
    | .error _ => .ok none
    | .ok credentials =>
      if manager.strategy.validateCredentials (world.outside .obtained) credentials then
        .ok (some credentials)
      else .ok none

def noActiveCredentials : AuthError := .noActiveCredentials (debugName manager.authMethod)

def fromStored (stored : String) : Except AuthError Credentials × Manager :=
  match world.parse stored with
  | .error err => (.error (.other (.error err)), manager)
  | .ok parsed =>
    if manager.strategy.validateCredentials (world.outside .stored) parsed then
      (.ok parsed, manager.setCredentials parsed)
    else
      match manager.strategy.refreshToken (world.outside .refresh) parsed with
      | .error (.other (.panic message)) => (.error (.other (.panic message)), manager)
      | .error _ => (.error manager.noActiveCredentials, manager)
      | .ok refreshed => manager.cacheThenSave world refreshed

def credentials : Except AuthError Credentials × Manager :=
  match manager.fromCache world with
  | some cached => (.ok cached, manager)
  | none =>
    match manager.fromEnv world with
    | .error err => (.error err, manager)
    | .ok (some obtained) => (.ok obtained, manager.setCredentials obtained)
    | .ok none =>
      match world.load credentialAccount with
      | .error fault => (.error (.other fault), manager)
      | .ok none => (.error manager.noActiveCredentials, manager)
      | .ok (some stored) => manager.fromStored world stored

/-- What the cached credentials hold, in whatever order. -/
def held : Option (String → Option String) := manager.cachedCredentials.map Map.get

end Manager

inductive Request where
  | login (config : AuthConfig)
  | credentials

def perform (manager : Manager) (world : World) :
    Request → Except AuthError Credentials × Manager
  | .login config => manager.login world config
  | .credentials => manager.credentials world

/-- Stored credentials are renewed: neither memory nor the environment gives any,
and those of the store are no longer good. -/
structure Renews (manager : Manager) (world : World) (stored : String)
    (parsed refreshed : Credentials) : Prop where
  cache : manager.fromCache world = none
  environment : manager.fromEnv world = .ok none
  load : world.load credentialAccount = .ok (some stored)
  parse : world.parse stored = .ok parsed
  expired : manager.strategy.validateCredentials (world.outside .stored) parsed = false
  refresh : manager.strategy.refreshToken (world.outside .refresh) parsed = .ok refreshed

/-- The request has new credentials for the store. -/
def Obtains (manager : Manager) (world : World) (fresh : Credentials) : Request → Prop
  | .login config =>
    manager.strategy.authenticate (world.outside .login) config = .ok fresh
  | .credentials => ∃ stored parsed, Renews manager world stored parsed fresh

/-- A request that ends with an error leaves the cached credentials. -/
def FailureKeepsCache (manager : Manager) (world : World) (request : Request) : Prop :=
  ∀ err message, (perform manager world request).1 = .error err →
    err.fault = .error message → (perform manager world request).2.held = manager.held

def SaveFails (world : World) (fresh : Credentials) : Prop :=
  ∃ message, world.save credentialAccount (world.render fresh) = .error (.error message)

theorem held_setCredentials (manager : Manager) (credentials : Credentials) :
    (manager.setCredentials credentials).held = some credentials.get := rfl

theorem snd_cacheThenSave (manager : Manager) (world : World) (fresh : Credentials) :
    (manager.cacheThenSave world fresh).2 = manager.setCredentials fresh := by
  unfold Manager.cacheThenSave
  split <;> rfl

/-- Where credentials are cached and then saved, it is the save that can fail. -/
theorem cacheThenSave_error_iff (manager : Manager) (world : World) (fresh : Credentials) :
    (∃ err message, (manager.cacheThenSave world fresh).1 = .error err ∧
      err.fault = .error message) ↔ SaveFails world fresh := by
  unfold Manager.cacheThenSave SaveFails
  cases world.save credentialAccount (world.render fresh) with
  | ok _ => simp
  | error fault => cases fault <;> simp [AuthError.fault]

theorem credentials_of_renews {manager : Manager} {world : World} {stored : String}
    {parsed refreshed : Credentials} (h : Renews manager world stored parsed refreshed) :
    manager.credentials world = manager.cacheThenSave world refreshed := by
  have hstored : manager.fromStored world stored = manager.cacheThenSave world refreshed := by
    simp only [Manager.fromStored, h.parse, h.expired, Bool.false_eq_true, if_false, h.refresh]
  simp only [Manager.credentials, h.cache, h.environment, h.load, hstored]

theorem valid_of_fromCache {manager : Manager} {world : World} {credentials : Credentials}
    (h : manager.fromCache world = some credentials) :
    manager.strategy.validateCredentials (world.outside .cached) credentials = true :=
  (Option.filter_eq_some_iff.mp h).2

/-- The environment gives credentials that are good, or it stops with a panic. -/
theorem fromEnv_cases (manager : Manager) (world : World) :
    manager.fromEnv world = .ok none ∨
      (∃ message, manager.fromEnv world = .error (.other (.panic message))) ∨
      ∃ credentials, manager.fromEnv world = .ok (some credentials) ∧
        manager.strategy.validateCredentials (world.outside .obtained) credentials = true := by
  unfold Manager.fromEnv
  split
  · exact Or.inl rfl
  · split
    · rename_i message _
      exact Or.inr (Or.inl ⟨message, rfl⟩)
    · exact Or.inl rfl
    · rename_i credentials _
      split
      · rename_i hvalid
        exact Or.inr (Or.inr ⟨credentials, rfl, hvalid⟩)
      · exact Or.inl rfl

/-- A call that renews nothing gives credentials that are good, or it fails and
leaves the manager; then no field of credentials was missing. -/
def Settles (manager : Manager) (world : World)
    (result : Except AuthError Credentials × Manager) : Prop :=
  (∃ stage credentials cached,
    result = (.ok credentials, { manager with cachedCredentials := cached }) ∧
      manager.strategy.validateCredentials (world.outside stage) credentials = true) ∨
  ∃ err, result = (.error err, manager) ∧ ∀ fields, err ≠ .missingCredentials fields

theorem settles_other (manager : Manager) (world : World) (fault : Fault) :
    Settles manager world (.error (.other fault), manager) :=
  Or.inr ⟨.other fault, rfl, fun _ => by simp⟩

theorem settles_noActiveCredentials (manager : Manager) (world : World) :
    Settles manager world (.error manager.noActiveCredentials, manager) :=
  Or.inr ⟨manager.noActiveCredentials, rfl, fun _ => by simp [Manager.noActiveCredentials]⟩

theorem fromStored_settles {manager : Manager} {world : World} {stored : String}
    (h : ∀ parsed refreshed, world.parse stored = .ok parsed →
      manager.strategy.validateCredentials (world.outside .stored) parsed = false →
      manager.strategy.refreshToken (world.outside .refresh) parsed ≠ .ok refreshed) :
    Settles manager world (manager.fromStored world stored) := by
  unfold Manager.fromStored
  cases hparse : world.parse stored with
  | error err => exact settles_other manager world (.error err)
  | ok parsed =>
    dsimp only
    split
    · rename_i hvalid
      exact Or.inl ⟨.stored, parsed, some parsed, rfl, hvalid⟩
    · rename_i hexpired
      split
      · exact settles_other manager world _
      · exact settles_noActiveCredentials manager world
      · rename_i refreshed hrefresh
        exact absurd hrefresh (h parsed refreshed hparse (Bool.eq_false_iff.mpr hexpired))

theorem credentials_settles {manager : Manager} {world : World}
    (h : ∀ stored parsed refreshed, ¬ Renews manager world stored parsed refreshed) :
    Settles manager world (manager.credentials world) := by
  unfold Manager.credentials
  cases hcache : manager.fromCache world with
  | some cached =>
    exact Or.inl ⟨.cached, cached, manager.cachedCredentials, rfl, valid_of_fromCache hcache⟩
  | none =>
    obtain henv | ⟨message, henv⟩ | ⟨obtained, henv, hvalid⟩ := fromEnv_cases manager world
    · rw [henv]
      cases hload : world.load credentialAccount with
      | error fault => exact settles_other manager world fault
      | ok found =>
        cases found with
        | none => exact settles_noActiveCredentials manager world
        | some stored =>
          apply fromStored_settles
          intro parsed refreshed hparse hexpired hrefresh
          exact h stored parsed refreshed ⟨hcache, henv, hload, hparse, hexpired, hrefresh⟩
    · rw [henv]
      exact settles_other manager world (.panic message)
    · rw [henv]
      exact Or.inl ⟨.obtained, obtained, some obtained, rfl, hvalid⟩

theorem failureKeepsCache_of_settles {manager : Manager} {world : World} {request : Request}
    (h : Settles manager world (perform manager world request)) :
    FailureKeepsCache manager world request := by
  intro err message herr _
  obtain ⟨stage, credentials, cached, hok, -⟩ | ⟨err', hfailed, -⟩ := h
  · rw [hok] at herr
    contradiction
  · rw [hfailed]

/-- A request that has new credentials keeps the cache at a failure unless it is
the save that fails, and then where the cache held the same. -/
theorem failureKeepsCache_of_obtained {manager : Manager} {world : World} {request : Request}
    {fresh : Credentials}
    (h : perform manager world request = manager.cacheThenSave world fresh) :
    FailureKeepsCache manager world request ↔
      (SaveFails world fresh → manager.held = some fresh.get) := by
  unfold FailureKeepsCache
  rw [h, snd_cacheThenSave, held_setCredentials, ← cacheThenSave_error_iff manager world fresh]
  constructor
  · intro hkeeps h'
    obtain ⟨err, message, herr, hmessage⟩ := h'
    exact (hkeeps err message herr hmessage).symm
  · intro hheld err message herr hmessage
    exact (hheld ⟨err, message, herr, hmessage⟩).symm

/-- New credentials are cached and then saved. -/
theorem perform_of_obtains {manager : Manager} {world : World} {request : Request}
    {fresh : Credentials} (h : Obtains manager world fresh request) :
    perform manager world request = manager.cacheThenSave world fresh := by
  cases request with
  | login config =>
    have hauthenticate : manager.strategy.authenticate (world.outside .login) config = .ok fresh :=
      h
    simp only [perform, Manager.login, hauthenticate]
  | credentials =>
    obtain ⟨stored, parsed, hrenews⟩ := h
    exact credentials_of_renews hrenews

theorem failureKeepsCache_of_not_obtains {manager : Manager} {world : World} {request : Request}
    (h : ∀ fresh, ¬ Obtains manager world fresh request) :
    FailureKeepsCache manager world request := by
  cases request with
  | login config =>
    intro err message herr _
    simp only [perform, Manager.login] at herr ⊢
    split
    · rfl
    · rename_i fresh hfresh
      exact absurd hfresh (h fresh)
  | credentials =>
    apply failureKeepsCache_of_settles
    apply credentials_settles
    intro stored parsed refreshed hrenews
    exact h refreshed ⟨stored, parsed, hrenews⟩

/-- A failed request leaves the cached credentials, except where it obtained new
ones that the store does not take. -/
theorem failureKeepsCache_iff (manager : Manager) (world : World) (request : Request) :
    FailureKeepsCache manager world request ↔
      ∀ fresh, Obtains manager world fresh request → SaveFails world fresh →
        manager.held = some fresh.get := by
  constructor
  · intro hkeeps fresh hobtains
    exact (failureKeepsCache_of_obtained (perform_of_obtains hobtains)).mp hkeeps
  · intro h
    by_cases hobtains : ∃ fresh, Obtains manager world fresh request
    · obtain ⟨fresh, hobtains⟩ := hobtains
      exact (failureKeepsCache_of_obtained (perform_of_obtains hobtains)).mpr (h fresh hobtains)
    · exact failureKeepsCache_of_not_obtains (not_exists.mp hobtains)

/-- A world whose store is a keychain and a file. -/
def World.withStorage (world : World) (json : JsonMaps) (cipher : Cipher) (env : Env)
    (storage : Storage) : World :=
  { world with
    load := loadCredential json cipher env storage
    save := fun account value => (saveCredential json cipher env storage account value).1 }

/-- Without a keychain and a file that can be rewritten nothing is saved. -/
theorem saveFails_withStorage {env : Env} (hkeychain : env.available = false)
    (hrewrite : env.rewrite ≠ .done) (world : World) (json : JsonMaps) (cipher : Cipher)
    (storage : Storage) (fresh : Credentials) :
    SaveFails (world.withStorage json cipher env storage) fresh := by
  unfold SaveFails World.withStorage
  simp only [saveCredential, setPassword, hkeychain, Bool.false_eq_true, if_false]
  exact saveToFile_of_not_canSave json cipher (fun h => hrewrite h.2) storage.file _

/-- Nothing is set and nobody answers. -/
def sampleWorld : World where
  env _ := none
  outside _ := ⟨0, fun _ _ => .error "error sending request"⟩
  load _ := .ok none
  save _ _ := .ok ()
  parse _ := .error "expected value at line 1 column 1"
  render credentials := "\x7b" ++ ",".intercalate (credentials.entries.map fun entry =>
    quoteText entry.1 ++ ":" ++ quoteText entry.2) ++ "\x7d"

def sampleLogin : AuthConfig := (Map.empty.insert "username" "sa").insert "password" "s3cr3t"

/-- Neither a keychain nor a directory for the file. -/
def lockedEnv : Env := ⟨false, zeroNonce, .noDirectory "Permission denied (os error 13)"⟩

/-- A login that cannot be saved fails and still changes the cached credentials. -/
theorem not_failureKeepsCache_locked :
    ¬ FailureKeepsCache (Manager.new ⟨false, false⟩ .sqlServer)
      (sampleWorld.withStorage hexMaps taggingCipher lockedEnv Storage.empty)
      (.login sampleLogin) := by
  intro hkeeps
  have hobtains : Obtains (Manager.new ⟨false, false⟩ .sqlServer)
      (sampleWorld.withStorage hexMaps taggingCipher lockedEnv Storage.empty) sampleLogin
      (.login sampleLogin) := rfl
  have hfails : SaveFails (sampleWorld.withStorage hexMaps taggingCipher lockedEnv Storage.empty)
      sampleLogin :=
    saveFails_withStorage rfl (by decide) sampleWorld hexMaps taggingCipher Storage.empty
      sampleLogin
  have hheld := (failureKeepsCache_of_obtained (perform_of_obtains hobtains)).mp hkeeps hfails
  contradiction

inductive TdsAuth where
  | sqlServer (username password : String)
  | windows (username password : String)
  | aadToken (token : String)
  deriving DecidableEq

def windowsAuthMethod (build : Build) (username password : String) : Except AuthError TdsAuth :=
  if build.windows then .ok (.windows username password)
  else .error (.other (.error ("Windows Authentication requires tiberius's native SSPI binding, " ++
    "which is only compiled on Windows targets; this server is running on a non-Windows target " ++
    "with no non-Windows NTLM/Kerberos implementation linked in. Use `sql_server` or " ++
    "`azure_ad` auth instead, or add Kerberos support (tiberius's `integrated-auth-gssapi` " ++
    "feature, which requires the system `libgssapi` library) if Windows Authentication against " ++
    "a non-Windows client is required.")))

def tdsAuth (build : Build) (authMethod : AuthMethod) (credentials : Credentials) :
    Except AuthError TdsAuth :=
  match authMethod with
  | .sqlServer => do
    let username ← require credentials "username" "username"
    let password ← require credentials "password" "password"
    return .sqlServer username password
  | .windows => do
    let username ← require credentials "username" "username"
    let password ← require credentials "password" "password"
    windowsAuthMethod build username password
  | .azureAd => do
    let token ← require credentials "access_token" "access_token"
    return .aadToken token

def resolveTdsAuth (build : Build) (manager : Manager) (world : World) :
    Except AuthError TdsAuth × Manager :=
  let resolved := manager.credentials world
  (resolved.1 >>= fun credentials => tdsAuth build manager.authMethod credentials, resolved.2)

inductive Event where
  | setCredentials (credentials : Credentials)
  | request (world : World) (request : Request)

def step (manager : Manager) : Event → Option Manager
  | .setCredentials credentials => some (manager.setCredentials credentials)
  | .request world request => some (perform manager world request).2

/-- The strategy is the one of the method that the manager was made for. -/
structure MadeFor (build : Build) (authMethod : AuthMethod) (manager : Manager) : Prop where
  method : manager.authMethod = authMethod
  strategy : manager.strategy = strategyFor build authMethod

theorem madeFor_perform {build : Build} {authMethod : AuthMethod} {manager : Manager}
    (h : MadeFor build authMethod manager) (world : World) (request : Request) :
    MadeFor build authMethod (perform manager world request).2 := by
  by_cases hobtains : ∃ fresh, Obtains manager world fresh request
  · obtain ⟨fresh, hobtains⟩ := hobtains
    rw [perform_of_obtains hobtains, snd_cacheThenSave]
    exact ⟨h.method, h.strategy⟩
  · have hnone := not_exists.mp hobtains
    cases request with
    | login config =>
      simp only [perform, Manager.login]
      split
      · exact h
      · rename_i fresh hfresh
        exact absurd hfresh (hnone fresh)
    | credentials =>
      have hsettles : Settles manager world (manager.credentials world) :=
        credentials_settles fun stored parsed refreshed hrenews =>
          hnone refreshed ⟨stored, parsed, hrenews⟩
      obtain ⟨stage, credentials, cached, hok, -⟩ | ⟨err, hfailed, -⟩ := hsettles
      · rw [perform, hok]
        exact ⟨h.method, h.strategy⟩
      · rw [perform, hfailed]
        exact h

theorem madeFor_run {build : Build} {authMethod : AuthMethod} {events : List Event}
    {manager : Manager} (h : run step (Manager.new build authMethod) events = some manager) :
    MadeFor build authMethod manager := by
  refine invariant_of_reached ?_ ⟨rfl, rfl⟩ (reached_last h)
  intro before event after hbefore hstep
  cases event with
  | setCredentials credentials =>
    rw [← Option.some.inj hstep]
    exact ⟨hbefore.method, hbefore.strategy⟩
  | request world request =>
    rw [← Option.some.inj hstep]
    exact madeFor_perform hbefore world request

/-- Whatever the source of the credentials, they carry the fields of the method. -/
theorem credentials_cases {build : Build} {authMethod : AuthMethod} {manager : Manager}
    (h : MadeFor build authMethod manager) (world : World) :
    (∃ credentials, (manager.credentials world).1 = .ok credentials ∧
      Carries authMethod credentials) ∨
    ∃ err, (manager.credentials world).1 = .error err ∧
      ∀ fields, err ≠ .missingCredentials fields := by
  by_cases hrenews : ∃ stored parsed refreshed, Renews manager world stored parsed refreshed
  · obtain ⟨stored, parsed, refreshed, hrenews⟩ := hrenews
    have hcarries : Carries authMethod refreshed := by
      have hrefresh := hrenews.refresh
      rw [h.strategy] at hrefresh
      exact carries_of_refresh hrefresh
    rw [credentials_of_renews hrenews]
    unfold Manager.cacheThenSave
    split
    · exact Or.inr ⟨_, rfl, fun _ => by simp⟩
    · exact Or.inl ⟨refreshed, rfl, hcarries⟩
  · have hsettles : Settles manager world (manager.credentials world) :=
      credentials_settles fun stored parsed refreshed hr => hrenews ⟨stored, parsed, refreshed, hr⟩
    obtain ⟨stage, credentials, cached, hok, hvalid⟩ | ⟨err, hfailed, hmissing⟩ := hsettles
    · rw [h.strategy] at hvalid
      exact Or.inl ⟨credentials, by rw [hok], carries_of_validate hvalid⟩
    · exact Or.inr ⟨err, by rw [hfailed], hmissing⟩

theorem require_of_get {config : AuthConfig} {field fields : String}
    (h : ∃ value, config.get field = some value) :
    ∃ value, require config field fields = .ok value := by
  obtain ⟨value, hvalue⟩ := h
  exact ⟨value, by simp only [require, hvalue]⟩

theorem windowsAuthMethod_ne_missing (build : Build) (username password fields : String) :
    windowsAuthMethod build username password ≠ .error (.missingCredentials fields) := by
  unfold windowsAuthMethod
  split
  · exact nofun
  · intro herror
    have hother := Except.error.inj herror
    contradiction

/-- A connection that reads credentials which carry the fields misses none. -/
theorem tdsAuth_ne_missing {build : Build} {authMethod : AuthMethod} {credentials : Credentials}
    (h : Carries authMethod credentials) (fields : String) :
    tdsAuth build authMethod credentials ≠ .error (.missingCredentials fields) := by
  have hread : ∀ field ∈ fieldsRead authMethod,
      ∃ value, require credentials field field = .ok value :=
    fun field hfield => require_of_get (h field hfield)
  cases authMethod with
  | sqlServer =>
    obtain ⟨username, husername⟩ := hread "username" List.mem_cons_self
    obtain ⟨password, hpassword⟩ := hread "password" (List.mem_cons_of_mem _ List.mem_cons_self)
    simp [tdsAuth, husername, hpassword, ok_bind]
  | windows =>
    obtain ⟨username, husername⟩ := hread "username" List.mem_cons_self
    obtain ⟨password, hpassword⟩ := hread "password" (List.mem_cons_of_mem _ List.mem_cons_self)
    simp only [tdsAuth, husername, hpassword, ok_bind]
    exact windowsAuthMethod_ne_missing build username password fields
  | azureAd =>
    obtain ⟨token, htoken⟩ := hread "access_token" List.mem_cons_self
    simp [tdsAuth, htoken]

/-- In every state that a manager reaches, credentials that are found carry what
the connection reads of them, so no connection misses a field. -/
theorem resolveTdsAuth_ne_missing {build : Build} {authMethod : AuthMethod} {manager : Manager}
    (events : List Event)
    (h : run step (Manager.new build authMethod) events = some manager) (world : World) :
    manager.authMethod = authMethod ∧
      (∀ credentials, (manager.credentials world).1 = .ok credentials →
        Carries authMethod credentials) ∧
      ∀ fields, (resolveTdsAuth build manager world).1 ≠ .error (.missingCredentials fields) := by
  have hmade := madeFor_run h
  refine ⟨hmade.method, ?_, ?_⟩
  · intro credentials hok
    obtain ⟨found, hfound, hcarries⟩ | ⟨err, hfailed, -⟩ := credentials_cases hmade world
    · rw [hfound] at hok
      rw [← Except.ok.inj hok]
      exact hcarries
    · rw [hfailed] at hok
      contradiction
  · intro fields
    have hresolve : (resolveTdsAuth build manager world).1 =
        (manager.credentials world).1 >>= fun found => tdsAuth build authMethod found := by
      rw [← hmade.method]
      rfl
    rw [hresolve]
    obtain ⟨found, hfound, hcarries⟩ | ⟨err, hfailed, hmissing⟩ := credentials_cases hmade world
    · rw [hfound, ok_bind]
      exact tdsAuth_ne_missing hcarries fields
    · rw [hfailed, error_bind]
      intro herror
      exact hmissing fields (Except.error.inj herror)

/-- The environment names a client and the endpoint grants it a token for an hour. -/
def tokenWorld : World :=
  { sampleWorld with
    env := some
    outside := fun _ => ⟨0, fun _ _ => .ok ⟨"eyJ0", some 3600⟩⟩ }

/-- A manager for tokens that was handed an empty map. -/
theorem resolveTdsAuth_ne_missing_emptied :
    ((Manager.new ⟨false, false⟩ .azureAd).setCredentials Map.empty).authMethod = .azureAd ∧
      (∀ credentials, (((Manager.new ⟨false, false⟩ .azureAd).setCredentials Map.empty).credentials
          tokenWorld).1 = .ok credentials → Carries .azureAd credentials) ∧
      ∀ fields, (resolveTdsAuth ⟨false, false⟩
        ((Manager.new ⟨false, false⟩ .azureAd).setCredentials Map.empty) tokenWorld).1 ≠
          .error (.missingCredentials fields) :=
  resolveTdsAuth_ne_missing [.setCredentials Map.empty] rfl tokenWorld

end SqlServerMcp.AuthManager
