import SqlServerMcp.CredentialDisk

/-!
What a load makes of an arbitrary entry. The two words of an entry are read two
bytes at a time, with a plus sign taken for a digit; a step that ends inside a
character and a nonce of another length stop the program. All other entries that
cannot be opened are errors.
-/
namespace SqlServerMcp.CredentialEntries

open CredentialDisk Results SqlValue Text
open CredentialFile hiding loadFromFile

/-- Bytes in hexadecimal, in digits of either case. -/
inductive HexText : List Char → List UInt8 → Prop
  | nil : HexText [] []
  | cons {c d : Char} {high low : ℕ} {rest : List Char} {bytes : List UInt8} :
      hexDigit c = some high → hexDigit d = some low → HexText rest bytes →
        HexText (c :: d :: rest) (UInt8.ofNat (16 * high + low) :: bytes)

/-- The texts that are read as bytes: the first digit of a pair may be a plus
sign, which stands for zero. -/
inductive PairText : List Char → List UInt8 → Prop
  | nil : PairText [] []
  | cons {c d : Char} {high low : ℕ} {rest : List Char} {bytes : List UInt8} :
      (c = '+' ∧ high = 0 ∨ hexDigit c = some high) → hexDigit d = some low →
        PairText rest bytes → PairText (c :: d :: rest) (UInt8.ofNat (16 * high + low) :: bytes)

/-- A step of two bytes that ends inside a character. -/
def StopsInside : List Char → Prop
  | [] => False
  | c :: rest => 2 < c.utf8Size ∨ c.utf8Size = 1 ∧ ∃ d tail, rest = d :: tail ∧ 1 < d.utf8Size

/-- After some pairs of digits there is a character that a step of two bytes
cuts. -/
def CutsCharacter (l : List Char) : Prop :=
  byteLength l % 2 = 0 ∧
    ∃ pairs bytes rest, l = pairs ++ rest ∧ PairText pairs bytes ∧ StopsInside rest

section Pairs

theorem hexDigit_eq_some {c : Char} {n : ℕ} (h : hexDigit c = some n) :
    (48 ≤ c.toNat ∧ c.toNat ≤ 57 ∨ 65 ≤ c.toNat ∧ c.toNat ≤ 70 ∨
      97 ≤ c.toNat ∧ c.toNat ≤ 102) ∧ n < 16 := by
  unfold hexDigit at h
  split at h
  · rename_i hrange
    obtain ⟨hlower, hupper⟩ : 48 ≤ c.toNat ∧ c.toNat ≤ 57 := hrange
    have hn := Option.some.inj h
    omega
  · split at h
    · rename_i hrange
      obtain ⟨hlower, hupper⟩ : 97 ≤ c.toNat ∧ c.toNat ≤ 102 := hrange
      have hn := Option.some.inj h
      omega
    · split at h
      · rename_i hrange
        obtain ⟨hlower, hupper⟩ : 65 ≤ c.toNat ∧ c.toNat ≤ 70 := hrange
        have hn := Option.some.inj h
        omega
      · contradiction

theorem utf8Size_of_toNat_le {c : Char} (h : c.toNat ≤ 127) : c.utf8Size = 1 :=
  Char.utf8Size_eq_one_iff.mpr h

theorem hexDigit_plain {c : Char} {n : ℕ} (h : hexDigit c = some n) :
    c.utf8Size = 1 ∧ c ≠ '+' ∧ c ≠ ':' := by
  obtain ⟨hrange, -⟩ := hexDigit_eq_some h
  have hplus : '+'.toNat = 43 := rfl
  have hcolon : ':'.toNat = 58 := rfl
  refine ⟨utf8Size_of_toNat_le (by omega), ?_, ?_⟩
  · intro h'
    subst h'
    omega
  · intro h'
    subst h'
    omega

theorem fromStrRadix16_eq_ok_iff (c d : Char) (b : UInt8) :
    fromStrRadix16 c d = .ok b ↔
      ∃ high low, (c = '+' ∧ high = 0 ∨ hexDigit c = some high) ∧ hexDigit d = some low ∧
        b = UInt8.ofNat (16 * high + low) := by
  have hplus : hexDigit '+' = none := rfl
  unfold fromStrRadix16
  by_cases hc : c = '+'
  · cases hd : hexDigit d <;> simp [hc, hplus, eq_comm]
  · cases hexDigit c <;> cases hd : hexDigit d <;> simp [hc, eq_comm]

/-- The first character of a pair that is read has one byte. -/
theorem utf8Size_of_first {c : Char} {high : ℕ} (h : c = '+' ∧ high = 0 ∨ hexDigit c = some high) :
    c.utf8Size = 1 := by
  rcases h with ⟨rfl, -⟩ | hdigit
  · rfl
  · exact (hexDigit_plain hdigit).1

theorem fromHexPairs_pair {c d : Char} {high low : ℕ}
    (hc : c = '+' ∧ high = 0 ∨ hexDigit c = some high) (hd : hexDigit d = some low)
    (rest : List Char) :
    fromHexPairs (c :: d :: rest) =
      fromHexPairs rest >>= fun bytes => .ok (UInt8.ofNat (16 * high + low) :: bytes) := by
  have hcsize := utf8Size_of_first hc
  have hbyte := (fromStrRadix16_eq_ok_iff c d _).mpr ⟨high, low, hc, hd, rfl⟩
  rw [fromHexPairs, if_neg (by omega), if_pos ⟨hcsize, (hexDigit_plain hd).1⟩, hbyte, ok_bind]

/-- Pairs of digits are characters of one byte. -/
theorem pairText_sizes {l : List Char} {bytes : List UInt8} (h : PairText l bytes) :
    byteLength l = 2 * bytes.length := by
  induction h with
  | nil => rfl
  | @cons c d high low rest bytes hc hd _ ih =>
    have hcsize := utf8Size_of_first hc
    have hdsize := (hexDigit_plain hd).1
    simp only [byteLength, List.map_cons, List.sum_cons, List.length_cons] at ih ⊢
    omega

theorem fromHexPairs_eq_ok_iff (l : List Char) (bytes : List UInt8) :
    fromHexPairs l = .ok bytes ↔ PairText l bytes := by
  constructor
  · intro h
    induction l using fromHexPairs.induct generalizing bytes with
    | case1 =>
      rw [← Except.ok.inj h]
      exact .nil
    | case2 c hsize =>
      rw [fromHexPairs, if_pos hsize] at h
      contradiction
    | case3 c hsize =>
      rw [fromHexPairs, if_neg hsize] at h
      contradiction
    | case4 c d rest hsize =>
      rw [fromHexPairs, if_pos hsize] at h
      contradiction
    | case5 c d rest hsize hboth ih =>
      rw [fromHexPairs, if_neg hsize, if_pos hboth, bind_eq_ok] at h
      obtain ⟨byte, hbyte, hrest⟩ := h
      obtain ⟨tail, htail, hsome⟩ := (bind_eq_ok _ _ _).mp hrest
      obtain ⟨high, low, hhigh, hlow, rfl⟩ := (fromStrRadix16_eq_ok_iff c d byte).mp hbyte
      rw [← Except.ok.inj hsome]
      exact .cons hhigh hlow (ih tail htail)
    | case6 c d rest hsize hboth =>
      rw [fromHexPairs, if_neg hsize, if_neg hboth] at h
      contradiction
  · intro h
    induction h with
    | nil => rfl
    | cons hc hd _ ih => rw [fromHexPairs_pair hc hd, ih, ok_bind]

theorem fromHex_eq_ok_iff (l : List Char) (bytes : List UInt8) :
    fromHex l = .ok bytes ↔ PairText l bytes := by
  rw [← fromHexPairs_eq_ok_iff]
  unfold fromHex
  split
  · rename_i hodd
    refine iff_of_false nofun fun h => hodd ?_
    have hsizes := pairText_sizes ((fromHexPairs_eq_ok_iff l bytes).mp h)
    omega
  · rfl

theorem fromStrRadix16_not_panic (c d : Char) (message : String) :
    fromStrRadix16 c d ≠ .error (.panic message) := by
  unfold fromStrRadix16
  split <;> simp

theorem stopsInside_panics {l : List Char} (h : StopsInside l) :
    ∃ message, fromHexPairs l = .error (.panic message) := by
  cases l with
  | nil => exact h.elim
  | cons c rest =>
    have htwo : c.utf8Size ≠ 2 := by
      rcases h with hlarge | ⟨hone, -⟩ <;> omega
    cases rest with
    | nil => exact ⟨_, if_neg htwo⟩
    | cons d tail =>
      have hboth : ¬ (c.utf8Size = 1 ∧ d.utf8Size = 1) := by
        intro h'
        obtain ⟨hcsize, hdsize⟩ := h'
        rcases h with hlarge | ⟨-, e, rest, heq, hlarge⟩
        · omega
        · rw [(List.cons.inj heq).1] at hdsize
          omega
      refine ⟨"byte index is not a char boundary", ?_⟩
      rw [fromHexPairs, if_neg htwo, if_neg hboth]

theorem exists_stopsInside {l : List Char} {message : String} (heven : byteLength l % 2 = 0)
    (h : fromHexPairs l = .error (.panic message)) :
    ∃ pairs bytes rest, l = pairs ++ rest ∧ PairText pairs bytes ∧ StopsInside rest := by
  induction l using fromHexPairs.induct with
  | case1 => contradiction
  | case2 c hsize =>
    rw [fromHexPairs, if_pos hsize] at h
    have herror := Except.error.inj h
    contradiction
  | case3 c hsize =>
    have hlength : byteLength [c] = c.utf8Size := by simp [byteLength]
    have hpos := c.utf8Size_pos
    exact ⟨[], [], [c], rfl, .nil, Or.inl (by omega)⟩
  | case4 c d rest hsize =>
    rw [fromHexPairs, if_pos hsize] at h
    have herror := Except.error.inj h
    contradiction
  | case5 c d rest hsize hboth ih =>
    have hlength : byteLength (c :: d :: rest) = 2 + byteLength rest := by
      simp only [byteLength, List.map_cons, List.sum_cons, hboth.1, hboth.2]
      omega
    rw [fromHexPairs, if_neg hsize, if_pos hboth] at h
    rcases (bind_eq_error _ _ _).mp h with hbyte | ⟨byte, hbyte, hread⟩
    · exact absurd hbyte (fromStrRadix16_not_panic c d message)
    · rcases (bind_eq_error _ _ _).mp hread with hrest | ⟨bytes, -, hok⟩
      · obtain ⟨pairs, bytes, tail, hsplit, hpairs, hstop⟩ := ih (by omega) hrest
        obtain ⟨high, low, hhigh, hlow, -⟩ := (fromStrRadix16_eq_ok_iff c d byte).mp hbyte
        exact ⟨c :: d :: pairs, _, tail, by rw [hsplit]; rfl, .cons hhigh hlow hpairs, hstop⟩
      · contradiction
  | case6 c d rest hsize hboth =>
    have hcpos := c.utf8Size_pos
    have hdpos := d.utf8Size_pos
    refine ⟨[], [], c :: d :: rest, rfl, .nil, ?_⟩
    by_cases hlarge : 2 < c.utf8Size
    · exact Or.inl hlarge
    · exact Or.inr ⟨by omega, d, rest, rfl, by omega⟩

/-- Reading stops the program exactly where a step cuts a character. -/
theorem fromHex_panics_iff (l : List Char) :
    (∃ message, fromHex l = .error (.panic message)) ↔ CutsCharacter l := by
  unfold fromHex
  split
  · rename_i hodd
    refine iff_of_false ?_ fun h => hodd h.1
    intro h'
    obtain ⟨message, h⟩ := h'
    exact absurd (Except.error.inj h) nofun
  · rename_i hodd
    have heven := not_not.mp hodd
    constructor
    · intro h'
      obtain ⟨message, h⟩ := h'
      exact ⟨heven, exists_stopsInside heven h⟩
    · intro h'
      obtain ⟨-, pairs, bytes, rest, rfl, hpairs, hstop⟩ := h'
      clear hodd heven
      induction hpairs with
      | nil => exact stopsInside_panics hstop
      | cons hc hd _ ih =>
        obtain ⟨message, hrest⟩ := ih
        exact ⟨message, by
          rw [List.cons_append, List.cons_append, fromHexPairs_pair hc hd, hrest, error_bind]⟩

/-- Hexadecimal is read, and has neither a plus sign nor a colon. -/
theorem pairText_of_hexText {l : List Char} {bytes : List UInt8} (h : HexText l bytes) :
    PairText l bytes ∧ '+' ∉ l ∧ ':' ∉ l := by
  induction h with
  | nil => exact ⟨.nil, List.not_mem_nil, List.not_mem_nil⟩
  | cons hc hd _ ih =>
    obtain ⟨hpairs, hplus, hcolon⟩ := ih
    obtain ⟨-, hcplus, hccolon⟩ := hexDigit_plain hc
    obtain ⟨-, hdplus, hdcolon⟩ := hexDigit_plain hd
    refine ⟨.cons (Or.inr hc) hd hpairs, ?_, ?_⟩
    · simp only [List.mem_cons, not_or]
      exact ⟨hcplus.symm, hdplus.symm, hplus⟩
    · simp only [List.mem_cons, not_or]
      exact ⟨hccolon.symm, hdcolon.symm, hcolon⟩

/-- What is read without a plus sign is hexadecimal. -/
theorem hexText_of_pairText {l : List Char} {bytes : List UInt8} (h : PairText l bytes)
    (hplus : '+' ∉ l) : HexText l bytes := by
  induction h with
  | nil => exact .nil
  | cons hc hd _ ih =>
    simp only [List.mem_cons, not_or] at hplus
    rcases hc with ⟨hsign, -⟩ | hdigit
    · exact absurd hsign.symm hplus.1
    · exact .cons hdigit hd (ih hplus.2.2)

end Pairs

section Entries

variable (cipher : Cipher)

/-- An entry that is a nonce and a ciphertext in hexadecimal, which decrypts to
the text of a value. -/
def Sealed (raw value : String) : Prop :=
  ∃ (nonceHex ciphertextHex : List Char) (nonce : Nonce) (ciphertext : List UInt8),
    raw.toList = nonceHex ++ ':' :: ciphertextHex ∧ HexText nonceHex nonce.bytes ∧
      HexText ciphertextHex ciphertext ∧ cipher.decrypt nonce ciphertext = some (utf8Bytes value)

/-- The words of an entry that stops no load, and is opened only where it is
hexadecimal. -/
structure Sound (nonceHex ciphertextHex : List Char) : Prop where
  nonce_whole : ¬ CutsCharacter nonceHex
  nonce_length : ∀ bytes, PairText nonceHex bytes → bytes.length = 12
  ciphertext_whole : ∀ bytes, PairText nonceHex bytes → ¬ CutsCharacter ciphertextHex
  digits : ∀ (nonce : Nonce) ciphertext value, PairText nonceHex nonce.bytes →
    PairText ciphertextHex ciphertext → cipher.decrypt nonce ciphertext = some (utf8Bytes value) →
      '+' ∉ nonceHex ∧ '+' ∉ ciphertextHex

/-- An entry is opened when it is sealed, and is an error otherwise. -/
structure Opened (account raw : String) : Prop where
  sealed_value : ∀ value, Sealed cipher raw value → openEntry cipher account raw = .ok value
  not_sealed : (∀ value, ¬ Sealed cipher raw value) →
    ∃ message, openEntry cipher account raw = .error (.error message)

variable {cipher}

theorem sealed_iff {raw value : String} {nonceHex ciphertextHex : List Char}
    (hsplit : splitOnce ':' raw.toList = some (nonceHex, ciphertextHex)) :
    Sealed cipher raw value ↔ ∃ (nonce : Nonce) (ciphertext : List UInt8),
      HexText nonceHex nonce.bytes ∧ HexText ciphertextHex ciphertext ∧
        cipher.decrypt nonce ciphertext = some (utf8Bytes value) := by
  constructor
  · intro h
    obtain ⟨n, c, nonce, ciphertext, hraw, hn, hc, hdecrypt⟩ := h
    have hsame := splitOnce_append ':' n c (pairText_of_hexText hn).2.2
    rw [← hraw, hsplit, Option.some.injEq, Prod.mk.injEq] at hsame
    rw [hsame.1, hsame.2]
    exact ⟨nonce, ciphertext, hn, hc, hdecrypt⟩
  · intro h
    obtain ⟨nonce, ciphertext, hn, hc, hdecrypt⟩ := h
    exact ⟨nonceHex, ciphertextHex, nonce, ciphertext, splitOnce_eq_some hsplit, hn, hc, hdecrypt⟩

theorem not_opened_of_panic {account raw message : String}
    (h : openEntry cipher account raw = .error (.panic message)) :
    ¬ Opened cipher account raw := by
  intro hopened
  by_cases hsealed : ∃ value, Sealed cipher raw value
  · obtain ⟨value, hvalue⟩ := hsealed
    have hok := hopened.sealed_value value hvalue
    rw [h] at hok
    contradiction
  · obtain ⟨text, herror⟩ := hopened.not_sealed (not_exists.mp hsealed)
    rw [h, Except.error.injEq] at herror
    contradiction

theorem opened_of_error {account raw message : String}
    (h : openEntry cipher account raw = .error (.error message))
    (hnot : ∀ value, ¬ Sealed cipher raw value) : Opened cipher account raw :=
  ⟨fun value hvalue => absurd hvalue (hnot value), fun _ => ⟨message, h⟩⟩

theorem not_cutsCharacter_of_ok {l : List Char} {bytes : List UInt8} (h : fromHex l = .ok bytes) :
    ¬ CutsCharacter l := by
  intro hcuts
  obtain ⟨message, hpanic⟩ := (fromHex_panics_iff l).mpr hcuts
  rw [h] at hpanic
  contradiction

theorem not_cutsCharacter_of_error {l : List Char} {message : String}
    (h : fromHex l = .error (.error message)) : ¬ CutsCharacter l := by
  intro hcuts
  obtain ⟨text, hpanic⟩ := (fromHex_panics_iff l).mpr hcuts
  rw [h, Except.error.injEq] at hpanic
  contradiction

theorem not_pairText_of_error {l : List Char} {fault : Fault} (h : fromHex l = .error fault)
    (bytes : List UInt8) : ¬ PairText l bytes := by
  intro hpairs
  rw [(fromHex_eq_ok_iff l bytes).mpr hpairs] at h
  contradiction

theorem pairText_unique {l : List Char} {bytes bytes' : List UInt8} (h : fromHex l = .ok bytes)
    (h' : PairText l bytes') : bytes' = bytes := by
  rw [← fromHex_eq_ok_iff, h] at h'
  exact (Except.ok.inj h').symm

theorem nonce_unique {l : List Char} {nonce nonce' : Nonce} (h : fromHex l = .ok nonce.bytes)
    (h' : PairText l nonce'.bytes) : nonce' = nonce := by
  have hbytes := pairText_unique h h'
  cases nonce
  cases nonce'
  exact (Nonce.mk.injEq _ _ _ _).mpr hbytes

/-- The text of a plaintext, or an error where it is none. -/
theorem fromUtf8_cases (bytes : List UInt8) :
    (∃ value, bytes = utf8Bytes value) ∨ ∃ message, fromUtf8 bytes = .error (.error message) := by
  cases hread : fromUtf8 bytes with
  | ok value => exact Or.inl ⟨value, fromUtf8_eq_ok hread⟩
  | error fault =>
    right
    unfold fromUtf8 at hread
    split at hread
    · contradiction
    · exact ⟨_, by rw [← Except.error.inj hread]⟩

section Words

variable {account raw : String} {n c : List Char}
  (hsplit : splitOnce ':' raw.toList = some (n, c))
include hsplit

/-- Words that are read are those of a sealed entry when they have no plus sign. -/
theorem sealed_iff_of_read {nonce : Nonce} {ciphertext : List UInt8}
    (hn : fromHex n = .ok nonce.bytes) (hc : fromHex c = .ok ciphertext) (value : String) :
    Sealed cipher raw value ↔
      cipher.decrypt nonce ciphertext = some (utf8Bytes value) ∧ '+' ∉ n ∧ '+' ∉ c := by
  rw [sealed_iff hsplit]
  constructor
  · intro h
    obtain ⟨nonce', ciphertext', hn', hc', hdecrypt⟩ := h
    obtain ⟨hnpairs, hnplus, -⟩ := pairText_of_hexText hn'
    obtain ⟨hcpairs, hcplus, -⟩ := pairText_of_hexText hc'
    rw [← nonce_unique hn hnpairs, ← pairText_unique hc hcpairs]
    exact ⟨hdecrypt, hnplus, hcplus⟩
  · intro h
    obtain ⟨hdecrypt, hnplus, hcplus⟩ := h
    exact ⟨nonce, ciphertext,
      hexText_of_pairText ((fromHex_eq_ok_iff n _).mp hn) hnplus,
      hexText_of_pairText ((fromHex_eq_ok_iff c _).mp hc) hcplus, hdecrypt⟩

/-- What decrypts to no text is an error, as it should be. -/
theorem opened_of_no_text {nonce : Nonce} {ciphertext : List UInt8}
    (hn : fromHex n = .ok nonce.bytes) (hc : fromHex c = .ok ciphertext)
    (hnone : ∀ value, cipher.decrypt nonce ciphertext ≠ some (utf8Bytes value)) :
    Opened cipher account raw := by
  have hnot : ∀ value, ¬ Sealed cipher raw value := by
    intro value hvalue
    rw [sealed_iff_of_read hsplit hn hc] at hvalue
    exact hnone value hvalue.1
  cases hdecrypt : cipher.decrypt nonce ciphertext with
  | none =>
    have hopen : openEntry cipher account raw =
        .error (.error ("failed to decrypt credential for '" ++ account ++ "'")) := by
      simp only [openEntry, hsplit, hn, hc, fromSlice_bytes, ok_bind, hdecrypt]
    exact opened_of_error hopen hnot
  | some plaintext =>
    have hopen : openEntry cipher account raw = fromUtf8 plaintext := by
      simp only [openEntry, hsplit, hn, hc, fromSlice_bytes, ok_bind, hdecrypt]
    obtain ⟨value, rfl⟩ | ⟨message, herror⟩ := fromUtf8_cases plaintext
    · exact absurd hdecrypt (hnone value)
    · rw [herror] at hopen
      exact opened_of_error hopen hnot

/-- What decrypts to a text gives this text, with plus signs or without. -/
theorem opened_iff_of_text {nonce : Nonce} {ciphertext : List UInt8} {value : String}
    (hn : fromHex n = .ok nonce.bytes) (hc : fromHex c = .ok ciphertext)
    (hdecrypt : cipher.decrypt nonce ciphertext = some (utf8Bytes value)) :
    Opened cipher account raw ↔ '+' ∉ n ∧ '+' ∉ c := by
  have hopen : openEntry cipher account raw = .ok value := by
    simp only [openEntry, hsplit, hn, hc, fromSlice_bytes, ok_bind, hdecrypt,
      fromUtf8_utf8Bytes]
  have hsealed : ∀ v, Sealed cipher raw v ↔
      cipher.decrypt nonce ciphertext = some (utf8Bytes v) ∧ '+' ∉ n ∧ '+' ∉ c :=
    sealed_iff_of_read hsplit hn hc
  constructor
  · intro hopened
    by_contra hplus
    obtain ⟨message, herror⟩ := hopened.not_sealed fun v hv => hplus ((hsealed v).mp hv).2
    rw [hopen] at herror
    contradiction
  · intro hplus
    have hvalue := (hsealed value).mpr ⟨hdecrypt, hplus⟩
    refine ⟨fun value' hvalue' => ?_, fun hnot => absurd hvalue (hnot value)⟩
    rw [hsealed, hdecrypt] at hvalue'
    rw [hopen, utf8Bytes_injective (Option.some.inj hvalue'.1)]

/-- A ciphertext that is read is opened as it should be exactly when it is
hexadecimal, as the nonce, or does not decrypt to text. -/
theorem opened_iff_of_ciphertext {nonce : Nonce} {ciphertext : List UInt8}
    (hn : fromHex n = .ok nonce.bytes) (hc : fromHex c = .ok ciphertext) :
    Opened cipher account raw ↔ ∀ value, cipher.decrypt nonce ciphertext =
      some (utf8Bytes value) → '+' ∉ n ∧ '+' ∉ c := by
  by_cases htext : ∃ value, cipher.decrypt nonce ciphertext = some (utf8Bytes value)
  · obtain ⟨value, hdecrypt⟩ := htext
    rw [opened_iff_of_text hsplit hn hc hdecrypt]
    exact ⟨fun hplus _ _ => hplus, fun h => h value hdecrypt⟩
  · have hnone := not_exists.mp htext
    exact iff_of_true (opened_of_no_text hsplit hn hc hnone) fun value h => absurd h (hnone value)

omit hsplit in
/-- Words that are read are sound when a plus sign comes with no text. -/
theorem sound_iff_of_read {nonce : Nonce} {ciphertext : List UInt8}
    (hn : fromHex n = .ok nonce.bytes) (hc : fromHex c = .ok ciphertext) :
    Sound cipher n c ↔ ∀ value, cipher.decrypt nonce ciphertext = some (utf8Bytes value) →
      '+' ∉ n ∧ '+' ∉ c := by
  constructor
  · intro hsound value hdecrypt
    exact hsound.digits nonce ciphertext value ((fromHex_eq_ok_iff n _).mp hn)
      ((fromHex_eq_ok_iff c _).mp hc) hdecrypt
  · intro hplus
    constructor
    · exact not_cutsCharacter_of_ok hn
    · intro bytes hbytes
      rw [pairText_unique hn hbytes]
      exact nonce.length_eq
    · intro _ _
      exact not_cutsCharacter_of_ok hc
    · intro nonce' ciphertext' value hnonce hciphertext hdecrypt
      rw [nonce_unique hn hnonce, pairText_unique hc hciphertext] at hdecrypt
      exact hplus value hdecrypt

/-- Below a nonce that is read, the ciphertext decides. -/
theorem opened_iff_of_nonce {nonce : Nonce} (hn : fromHex n = .ok nonce.bytes) :
    Opened cipher account raw ↔ Sound cipher n c := by
  have hnpairs := (fromHex_eq_ok_iff n nonce.bytes).mp hn
  cases hc : fromHex c with
  | error fault =>
    have hopen : openEntry cipher account raw = .error fault := by
      simp only [openEntry, hsplit, hn, hc, fromSlice_bytes, ok_bind, error_bind]
    cases fault with
    | panic message =>
      refine iff_of_false (not_opened_of_panic hopen) fun h => ?_
      exact h.ciphertext_whole nonce.bytes hnpairs ((fromHex_panics_iff c).mp ⟨message, hc⟩)
    | error message =>
      refine iff_of_true (opened_of_error hopen ?_) ?_
      · intro value hvalue
        obtain ⟨-, ciphertext, -, hciphertext, -⟩ := (sealed_iff hsplit).mp hvalue
        exact not_pairText_of_error hc ciphertext (pairText_of_hexText hciphertext).1
      · constructor
        · exact not_cutsCharacter_of_ok hn
        · intro bytes hbytes
          rw [pairText_unique hn hbytes]
          exact nonce.length_eq
        · intro _ _
          exact not_cutsCharacter_of_error hc
        · intro _ ciphertext _ _ hciphertext
          exact absurd hciphertext (not_pairText_of_error hc ciphertext)
  | ok ciphertext => rw [opened_iff_of_ciphertext hsplit hn hc, sound_iff_of_read hn hc]

/-- An entry with a colon is opened as it should be exactly when its words are
sound. -/
theorem opened_iff_of_words : Opened cipher account raw ↔ Sound cipher n c := by
  cases hn : fromHex n with
  | error fault =>
    have hopen : openEntry cipher account raw = .error fault := by
      simp only [openEntry, hsplit, hn, error_bind]
    cases fault with
    | panic message =>
      refine iff_of_false (not_opened_of_panic hopen) fun h => ?_
      exact h.nonce_whole ((fromHex_panics_iff n).mp ⟨message, hn⟩)
    | error message =>
      refine iff_of_true (opened_of_error hopen ?_) ?_
      · intro value hvalue
        obtain ⟨nonce, -, hnonce, -⟩ := (sealed_iff hsplit).mp hvalue
        exact not_pairText_of_error hn nonce.bytes (pairText_of_hexText hnonce).1
      · constructor
        · exact not_cutsCharacter_of_error hn
        · intro bytes hbytes
          exact absurd hbytes (not_pairText_of_error hn bytes)
        · intro bytes hbytes
          exact absurd hbytes (not_pairText_of_error hn bytes)
        · intro nonce _ _ hnonce
          exact absurd hnonce (not_pairText_of_error hn nonce.bytes)
  | ok bytes =>
    by_cases hlength : bytes.length = 12
    · have hnonce : fromHex n = .ok (⟨bytes, hlength⟩ : Nonce).bytes := hn
      exact opened_iff_of_nonce hsplit hnonce
    · have hopen : openEntry cipher account raw =
          .error (.panic ("assertion failed: nonce of length " ++ toString bytes.length)) := by
        simp only [openEntry, hsplit, hn, ok_bind, Nonce.fromSlice, hlength, dif_neg,
          not_false_eq_true, error_bind]
      refine iff_of_false (not_opened_of_panic hopen) fun h => ?_
      exact hlength (h.nonce_length bytes ((fromHex_eq_ok_iff n bytes).mp hn))

end Words

theorem opened_iff (account raw : String) :
    Opened cipher account raw ↔ ∀ nonceHex ciphertextHex,
      splitOnce ':' raw.toList = some (nonceHex, ciphertextHex) →
        Sound cipher nonceHex ciphertextHex := by
  cases hsplit : splitOnce ':' raw.toList with
  | none =>
    have herror : openEntry cipher account raw =
        .error (.error ("corrupt credential entry for '" ++ account ++ "'")) := by
      simp only [openEntry, hsplit]
    refine iff_of_true (opened_of_error herror ?_)
      fun _ _ hnone => absurd hnone.symm (Option.some_ne_none _)
    intro value h'
    obtain ⟨n, c, nonce, ciphertext, hraw, hn, -, -⟩ := h'
    rw [hraw, splitOnce_append ':' n c (pairText_of_hexText hn).2.2] at hsplit
    contradiction
  | some words =>
    rw [opened_iff_of_words hsplit]
    simp only [Option.some.injEq]
    exact ⟨fun h n c heq => by rwa [heq] at h, fun h => h _ _ rfl⟩

end Entries

section Loads

variable (json : JsonMaps) (cipher : Cipher) (content : Content) (account : String)

/-- The file is a map with an entry for the account. -/
def HasEntry (raw : String) : Prop :=
  ∃ store, readFile json content = some store ∧ store.get account = some raw

/-- A load gives nothing without an entry, the value of a sealed entry, and an
error for any other entry. -/
structure LoadsEveryEntry : Prop where
  absent : (∀ raw, ¬ HasEntry json content account raw) →
    loadFromFile json cipher content account = .ok none
  sealed_value : ∀ raw value, HasEntry json content account raw → Sealed cipher raw value →
    loadFromFile json cipher content account = .ok (some value)
  not_sealed : ∀ raw, HasEntry json content account raw → (∀ value, ¬ Sealed cipher raw value) →
    ∃ message, loadFromFile json cipher content account = .error (.error message)

theorem hasEntry_iff (raw : String) :
    HasEntry json content account raw ↔
      (readStore (readFile json content)).get account = some raw := by
  cases hfile : readFile json content with
  | none => simp [HasEntry, hfile, readStore]
  | some store => simp [HasEntry, hfile, readStore]

variable {json content account}

theorem loadFromFile_of_no_entry (h : ∀ raw, ¬ HasEntry json content account raw) :
    loadFromFile json cipher content account = .ok none := by
  cases hget : (readStore (readFile json content)).get account with
  | none => simp only [loadFromFile, CredentialFile.loadFromFile, hget]
  | some raw => exact absurd ((hasEntry_iff json content account raw).mpr hget) (h raw)

/-- A load opens the entry of the account. -/
theorem loadFromFile_of_entry {raw : String} (h : HasEntry json content account raw) :
    loadFromFile json cipher content account = (openEntry cipher account raw).map some := by
  rw [hasEntry_iff] at h
  simp only [loadFromFile, CredentialFile.loadFromFile, h]

variable (json content account)

theorem loadsEveryEntry_iff_opened :
    LoadsEveryEntry json cipher content account ↔
      ∀ raw, HasEntry json content account raw → Opened cipher account raw := by
  constructor
  · intro h raw hraw
    have hload := loadFromFile_of_entry cipher hraw
    constructor
    · intro value hvalue
      have hok := h.sealed_value raw value hraw hvalue
      rw [hload, map_eq_ok] at hok
      obtain ⟨found, hfound, hsome⟩ := hok
      rw [hfound, Option.some.inj hsome]
    · intro hnot
      obtain ⟨message, herror⟩ := h.not_sealed raw hraw hnot
      rw [hload, map_eq_error] at herror
      exact ⟨message, herror⟩
  · intro h
    constructor
    · exact loadFromFile_of_no_entry cipher
    · intro raw value hraw hvalue
      rw [loadFromFile_of_entry cipher hraw, (h raw hraw).sealed_value value hvalue]
      rfl
    · intro raw hraw hnot
      obtain ⟨message, herror⟩ := (h raw hraw).not_sealed hnot
      exact ⟨message, by rw [loadFromFile_of_entry cipher hraw, map_eq_error, herror]⟩

/-- A load is as it should be exactly when the entry of the account, where there
is one, has sound words. -/
theorem loadsEveryEntry_iff :
    LoadsEveryEntry json cipher content account ↔
      ∀ raw nonceHex ciphertextHex, HasEntry json content account raw →
        splitOnce ':' raw.toList = some (nonceHex, ciphertextHex) →
          Sound cipher nonceHex ciphertextHex := by
  rw [loadsEveryEntry_iff_opened]
  simp only [opened_iff]
  exact ⟨fun h raw n c hraw => h raw hraw n c, fun h raw hraw n c => h raw n c hraw⟩

/-- A file with one entry, of a nonce of one byte. -/
def shortNonceContent : Content :=
  some (utf8Bytes (hexMaps.render (AssocMap.Map.empty.insert "account" "00:00")))

/-- The load of an entry with a short nonce stops the program. -/
theorem not_loadsEveryEntry_shortNonce :
    ¬ ∀ (json : JsonMaps) (cipher : Cipher) (content : Content) (account : String),
      LoadsEveryEntry json cipher content account := by
  intro h
  have hraw : HasEntry hexMaps shortNonceContent "account" "00:00" := by
    rw [hasEntry_iff, shortNonceContent, get_readFile_render]
    rfl
  have hopened := (loadsEveryEntry_iff_opened _ _ _ _).mp
    (h hexMaps taggingCipher shortNonceContent "account") "00:00" hraw
  have hopen : openEntry taggingCipher "account" "00:00" =
      .error (.panic "assertion failed: nonce of length 1") := rfl
  exact not_opened_of_panic hopen hopened

end Loads

end SqlServerMcp.CredentialEntries
