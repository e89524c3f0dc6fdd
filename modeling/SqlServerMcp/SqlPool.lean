import SqlServerMcp.ConfigSchema
import SqlServerMcp.KeyedCache
import SqlServerMcp.SqlValue

/-!
The process-wide cache of connection pools. A pool opens its connections with
the driver configuration it was built from; the cache finds it by host and port
alone.
-/
namespace SqlServerMcp.SqlPool

open AssocMap ConfigSchema FixedWidth KeyedCache SqlValue Text

/-- The authentication of the driver: a login, or an Azure AD access token. -/
inductive TdsAuth where
  | sqlServer (username password : String)
  | windows (username password : String)
  | aadToken (token : String)
  deriving DecidableEq

structure TdsConfig where
  host : String
  port : U16
  authentication : TdsAuth
  trustCert : Bool
  deriving DecidableEq

/-- A pool, by what it was built from. -/
structure Pool where
  config : TdsConfig
  maxSize : U32
  deriving DecidableEq

abbrev Pools := Entries String Pool

/-- The driver configuration of a call with its resolved authentication. -/
def tdsConfig (config : Config) (auth : TdsAuth) : TdsConfig where
  host := config.hostAndPort.1
  port := config.hostAndPort.2
  authentication := auth
  trustCert := config.trustServerCert

def poolKey (config : Config) : String :=
  config.hostAndPort.1 ++ ":" ++ toString config.hostAndPort.2.val

/-- The pool under the key, else a new one unless its building fails. -/
def cachedPool (pools : Pools) (cacheKey : String) (config : TdsConfig) (maxSize : U32)
    (build : Except Fault Unit) : Except Fault Pool × Pools :=
  match pools.lookup cacheKey with
  | some pool => (.ok pool, pools)
  | none =>
    match build with
    | .error fault => (.error fault, pools)
    | .ok () =>
      let stored := orInsert pools cacheKey ⟨config, maxSize⟩
      (.ok stored.2, stored.1)

/-- A call as the pool cache sees it. -/
structure Call where
  id : ℕ
  config : Config
  auth : TdsAuth
  deriving DecidableEq

namespace Call

def key (c : Call) : String := poolKey c.config

def pool (c : Call) : Pool := ⟨tdsConfig c.config c.auth, c.config.poolMaxSize⟩

end Call

/-- The pool key names the host and the port. -/
theorem poolKey_eq_iff (config config' : Config) :
    poolKey config = poolKey config' ↔ config.hostAndPort = config'.hostAndPort := by
  constructor
  · intro h
    have hchars := congrArg String.toList h
    have hport : ∀ p : U16, toString p.val = toString p.val.toNat := by
      intro p
      conv => lhs; rw [← Int.toNat_of_nonneg p.lower]
      rfl
    simp only [poolKey, hport, String.toList_append, List.append_assoc] at hchars
    obtain ⟨hhost, hnum⟩ := append_number_injective (by decide : ':'.isDigit = false) hchars
    have hval : config.hostAndPort.2.val = config'.hostAndPort.2.val := by
      have hlower := config.hostAndPort.2.lower
      have hlower' := config'.hostAndPort.2.lower
      omega
    exact Prod.ext (String.toList_injective hhost) (RangedInt.ext hval)
  · intro h
    unfold poolKey
    rw [h]

/-- A call that is not interrupted takes the steps of the shared cache. -/
theorem cachedPool_eq_run (s : State Call String Pool) (c : Call) :
    let s' := run Call.key Call.pool s [.lookup c, .store c]
    c ∉ s.building →
      ∃ pool, cachedPool s.cache c.key (tdsConfig c.config c.auth) c.config.poolMaxSize (.ok ()) =
        (.ok pool, s'.cache) ∧ s'.handed = (c, pool) :: s.handed := by
  intro s' hc
  cases hlookup : s.cache.lookup c.key with
  | some pool =>
    refine ⟨pool, ?_, ?_⟩
    · simp only [cachedPool, hlookup, s', run, List.foldl_cons, List.foldl_nil, step, hc, if_false]
    · simp only [s', run, List.foldl_cons, List.foldl_nil, step, hlookup, hc, if_false]
  | none =>
    refine ⟨c.pool, ?_, ?_⟩
    · simp only [cachedPool, s', run, List.foldl_cons, List.foldl_nil, step, hlookup,
        List.mem_cons_self, if_true, orInsert_miss hlookup]
      rfl
    · simp only [s', run, List.foldl_cons, List.foldl_nil, step, hlookup, List.mem_cons_self,
        if_true, orInsert_miss hlookup]

/-- In every interleaving of calls, each is handed a pool of its own
configuration exactly when no two calls that are handed pools for one host and
port resolve different authentications or trust settings. -/
theorem handed_own_config_iff (events : List (Event Call)) :
    (∀ e ∈ (run Call.key Call.pool initial events).handed,
      e.2.config = tdsConfig e.1.config e.1.auth) ↔
    ∀ e ∈ (run Call.key Call.pool initial events).handed,
      ∀ e' ∈ (run Call.key Call.pool initial events).handed,
        e.1.config.hostAndPort = e'.1.config.hostAndPort →
          e.1.auth = e'.1.auth ∧ e.1.config.trustServerCert = e'.1.config.trustServerCert := by
  have hview := (run_invariant Call.key Call.pool events).own_view_iff Pool.config
  simp only [Call.key, Call.pool, poolKey_eq_iff] at hview
  rw [hview]
  constructor
  · intro h e he e' he' hhost
    have hconfig := h e he e' he' hhost
    simp only [tdsConfig, TdsConfig.mk.injEq] at hconfig
    exact hconfig.2.2
  · intro h e he e' he' hhost
    obtain ⟨hauth, htrust⟩ := h e he e' he' hhost
    simp only [tdsConfig, hhost, hauth, htrust]

def azureConfig : Config := Config.ofRequired "db.example" .azureAd

def firstCall : Call := ⟨1, azureConfig, .aadToken "expired"⟩
def secondCall : Call := ⟨2, azureConfig, .aadToken "refreshed"⟩

/-- A call with a new access token is handed the pool of the expired one. -/
theorem expired_token_pool_reused :
    let s := run Call.key Call.pool initial
      [.lookup firstCall, .store firstCall, .lookup secondCall]
    (secondCall, firstCall.pool) ∈ s.handed ∧
      firstCall.pool.config ≠ tdsConfig secondCall.config secondCall.auth := by
  decide

end SqlServerMcp.SqlPool
