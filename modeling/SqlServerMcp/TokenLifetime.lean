import SqlServerMcp.AuthStrategies
import SqlServerMcp.Decimals

/-!
How long a token is taken for good. The end of its lifetime is computed in 64
bits, written down as a decimal text and read back by every check. It is the exact
end as long as that fits into 64 bits.
-/
namespace SqlServerMcp.TokenLifetime

open AssocMap AuthStrategies AuthStrategies.AzureAd Decimals Results Text

/-- The end of a lifetime in exact arithmetic, in milliseconds. -/
def deadline (received expiresIn : UInt64) : ℕ := received.toNat + 1000 * expiresIn.toNat

/-- Credentials are accepted up to the end of a lifetime and at no time after it. -/
def AcceptedUntilDeadline (received expiresIn : UInt64) (credentials : Credentials) : Prop :=
  ∀ later : Outside, received ≤ later.now →
    (validateCredentials later credentials = true ↔ later.now.toNat < deadline received expiresIn)

/-- The end of the lifetime is computed exactly, and the credentials of the
answer are accepted until then. -/
structure LivesExactly (build : Build) (outside : Outside) (accessToken : String)
    (expiresIn : UInt64) (config : AuthConfig) (url : String) : Prop where
  computed : ∃ expires, expiresAt build outside.now expiresIn = .ok expires ∧
    expires.toNat = deadline outside.now expiresIn
  accepted : ∃ credentials,
    fromTokenResponse build outside ⟨accessToken, some expiresIn⟩ config url = .ok credentials ∧
      AcceptedUntilDeadline outside.now expiresIn credentials

theorem toNat_wrapped (received expiresIn : UInt64) :
    (received + expiresIn * 1000).toNat = deadline received expiresIn % 2 ^ 64 := by
  have hseconds : (1000 : UInt64).toNat = 1000 := rfl
  rw [UInt64.toNat_add, UInt64.toNat_mul, hseconds, Nat.add_mod_mod, deadline, Nat.mul_comm]

theorem expiresAt_of_fits (build : Build) {received expiresIn : UInt64}
    (h : deadline received expiresIn < 2 ^ 64) :
    ∃ expires, expiresAt build received expiresIn = .ok expires ∧
      expires.toNat = deadline received expiresIn := by
  have hsum : received.toNat + expiresIn.toNat * 1000 < 2 ^ 64 := by
    rw [Nat.mul_comm]
    exact h
  refine ⟨received + expiresIn * 1000, ?_, ?_⟩
  · unfold expiresAt
    rw [if_neg fun hover => by omega, if_neg fun hover => by omega]
  · rw [toNat_wrapped, Nat.mod_eq_of_lt h]

section Answer

variable {build : Build} {outside : Outside} {accessToken url : String} {expiresIn : UInt64}
  {config : AuthConfig} {credentials : Credentials}

/-- The deadline stands in the credentials as a decimal text. -/
theorem get_expiresAt
    (h : fromTokenResponse build outside ⟨accessToken, some expiresIn⟩ config url =
      .ok credentials) :
    ∃ expires, expiresAt build outside.now expiresIn = .ok expires ∧
      credentials.get "expires_at" = some (toString expires.toNat) := by
  unfold fromTokenResponse at h
  obtain ⟨dated, hdated, h⟩ := (bind_eq_ok _ _ _).mp h
  obtain ⟨expires, hexpires, hinsert⟩ := (map_eq_ok _ _ _).mp hdated
  refine ⟨expires, hexpires, ?_⟩
  rw [← Except.ok.inj h, Map.get_insert_of_ne _ _ (by decide),
    get_foldl_copyField_of_notMem config _ dated (by decide), ← hinsert, Map.get_insert_self]

theorem exists_fromTokenResponse {expires : UInt64}
    (h : expiresAt build outside.now expiresIn = .ok expires) :
    ∃ credentials,
      fromTokenResponse build outside ⟨accessToken, some expiresIn⟩ config url =
        .ok credentials := by
  simp only [fromTokenResponse, withExpiry, h, Except.map, ok_bind]
  exact ⟨_, rfl⟩

/-- A check reads the text of the deadline back as the number it was. -/
theorem validateCredentials_iff {expires : UInt64} (later : Outside)
    (htoken : credentials.get "access_token" = some accessToken)
    (hexpires : credentials.get "expires_at" = some (toString expires.toNat)) :
    validateCredentials later credentials = true ↔ later.now.toNat < expires.toNat := by
  have hne : (toString expires.toNat).toList ≠ [] := by
    rw [toString_nat_toList]
    exact Nat.toDigits_ne_nil
  have hfit : ((digitsValue (toString expires.toNat).toList : ℕ) : ℤ) < 2 ^ 64 := by
    rw [digitsValue_toString]
    exact_mod_cast expires.toNat_lt
  obtain ⟨n, hread, hval⟩ := parseInt_of_isDigit 0 (2 ^ 64) (le_refl 0) hne
    (fun c hc => isDigit_of_mem_toString hc) hfit
  rw [digitsValue_toString] at hval
  simp only [validateCredentials, htoken, hexpires, hread, hval, Option.isSome_some,
    Bool.true_and, decide_eq_true_eq, Nat.cast_lt]

/-- What is accepted until the deadline has a deadline that fits: past the one
that was computed nothing is accepted, and it is always a time of the clock. -/
theorem fits_of_accepted
    (h : fromTokenResponse build outside ⟨accessToken, some expiresIn⟩ config url =
      .ok credentials)
    (haccepted : AcceptedUntilDeadline outside.now expiresIn credentials) :
    deadline outside.now expiresIn < 2 ^ 64 := by
  obtain ⟨expires, -, hget⟩ := get_expiresAt h
  by_contra hlarge
  rw [Nat.not_lt] at hlarge
  obtain ⟨time, hreceived, hpast⟩ : ∃ time : UInt64, outside.now ≤ time ∧ expires ≤ time := by
    rcases UInt64.le_total outside.now expires with hle | hle
    · exact ⟨expires, hle, UInt64.le_refl _⟩
    · exact ⟨outside.now, UInt64.le_refl _, hle⟩
  have hbefore : time.toNat < deadline outside.now expiresIn :=
    Nat.lt_of_lt_of_le time.toNat_lt hlarge
  have hvalid := (haccepted { outside with now := time } hreceived).mpr hbefore
  rw [validateCredentials_iff _ (get_accessToken h) hget] at hvalid
  exact absurd hvalid (Nat.not_lt.mpr (UInt64.le_iff_toNat_le.mp hpast))

end Answer

/-- A token lives for the time that the endpoint says exactly when the end of this
time fits into 64 bits of milliseconds. -/
theorem livesExactly_iff (build : Build) (outside : Outside) (accessToken : String)
    (expiresIn : UInt64) (config : AuthConfig) (url : String) :
    LivesExactly build outside accessToken expiresIn config url ↔
      outside.now.toNat + 1000 * expiresIn.toNat < 2 ^ 64 := by
  constructor
  · intro h
    obtain ⟨credentials, hok, haccepted⟩ := h.accepted
    exact fits_of_accepted hok haccepted
  · intro hfits
    obtain ⟨expires, hexpires, hexact⟩ := expiresAt_of_fits build hfits
    obtain ⟨credentials, hok⟩ : ∃ credentials,
        fromTokenResponse build outside ⟨accessToken, some expiresIn⟩ config url =
          .ok credentials := exists_fromTokenResponse hexpires
    refine ⟨⟨expires, hexpires, hexact⟩, credentials, hok, ?_⟩
    obtain ⟨expires', hexpires', hget⟩ := get_expiresAt hok
    obtain rfl : expires' = expires := Except.ok.inj (hexpires'.symm.trans hexpires)
    intro later _
    rw [validateCredentials_iff later (get_accessToken hok) hget, hexact]

/-- An endpoint may name the largest lifetime that the field takes. -/
theorem not_livesExactly_largest :
    ¬ ∀ (build : Build) (outside : Outside) (accessToken : String) (expiresIn : UInt64)
        (config : AuthConfig) (url : String),
      LivesExactly build outside accessToken expiresIn config url := by
  intro h
  obtain ⟨credentials, hok, haccepted⟩ := (h ⟨false, false⟩ ⟨1700000000000, fun _ _ => .error ""⟩
    "eyJ0" 18446744073709551615 Map.empty "").accepted
  exact absurd (fits_of_accepted hok haccepted) (by decide)

end SqlServerMcp.TokenLifetime
