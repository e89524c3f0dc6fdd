import SqlServerMcp.AssocMap
import SqlServerMcp.Results
import SqlServerMcp.SqlValue
import SqlServerMcp.Text

/-!
The encrypted file that keeps credentials where there is no keychain. An entry
is the nonce and the ciphertext in hexadecimal with a colon between them. What
is sealed in an entry is opened again.
-/
namespace SqlServerMcp.CredentialFile

open AssocMap SqlValue Text

structure Nonce where
  bytes : List UInt8
  length_eq : bytes.length = 12
  deriving DecidableEq

/-- Authenticated encryption under the key of this machine and user. -/
structure Cipher where
  encrypt : Nonce → List UInt8 → Option (List UInt8)
  decrypt : Nonce → List UInt8 → Option (List UInt8)
  decrypt_encrypt : ∀ nonce plaintext ciphertext,
    encrypt nonce plaintext = some ciphertext → decrypt nonce ciphertext = some plaintext

/-- The entries of the file, or `none` where there is no file or it holds no JSON
object of strings. -/
abbrev File := Option (Map String String)

def utf8Bytes (value : String) : List UInt8 := value.toByteArray.data.toList

/-- What the bytes after the first one of a UTF-8 sequence have to be, or `none`
where no sequence starts with that byte. -/
def utf8Continuation (first : UInt8) : Option (List (UInt8 × UInt8)) :=
  if first < 0x80 then some []
  else if first < 0xC2 then none
  else if first < 0xE0 then some [(0x80, 0xBF)]
  else if first = 0xE0 then some [(0xA0, 0xBF), (0x80, 0xBF)]
  else if first = 0xED then some [(0x80, 0x9F), (0x80, 0xBF)]
  else if first < 0xF0 then some [(0x80, 0xBF), (0x80, 0xBF)]
  else if first = 0xF0 then some [(0x90, 0xBF), (0x80, 0xBF), (0x80, 0xBF)]
  else if first < 0xF4 then some [(0x80, 0xBF), (0x80, 0xBF), (0x80, 0xBF)]
  else if first = 0xF4 then some [(0x80, 0x8F), (0x80, 0xBF), (0x80, 0xBF)]
  else none

/-- How many bytes of a broken sequence are to blame; none where the text ends. -/
def utf8ErrorLen (seen : ℕ) : List (UInt8 × UInt8) → List UInt8 → Option (Option ℕ)
  | [], _ => none
  | _ :: _, [] => some none
  | range :: ranges, byte :: rest =>
    if range.1 ≤ byte ∧ byte ≤ range.2 then utf8ErrorLen (seen + 1) ranges rest
    else some (some seen)

def utf8Error (index : ℕ) : ℕ → List UInt8 → String
  | fuel + 1, first :: rest =>
    let invalid (len : ℕ) :=
      "invalid utf-8 sequence of " ++ toString len ++ " bytes from index " ++ toString index
    match utf8Continuation first with
    | none => invalid 1
    | some ranges =>
      match utf8ErrorLen 1 ranges rest with
      | none => utf8Error (index + 1 + ranges.length) fuel (rest.drop ranges.length)
      | some none => "incomplete utf-8 byte sequence from index " ++ toString index
      | some (some len) => invalid len
  | _, _ => ""

def fromUtf8 (bytes : List UInt8) : Except Fault String :=
  match String.fromUTF8? ⟨bytes.toArray⟩ with
  | some value => .ok value
  | none => .error (.error (utf8Error 0 bytes.length bytes))

def toHex (bytes : List UInt8) : List Char :=
  bytes.flatMap fun b => [Nat.digitChar (b.toNat / 16), Nat.digitChar (b.toNat % 16)]

def hexDigit (c : Char) : Option ℕ :=
  if '0' ≤ c ∧ c ≤ '9' then some (c.toNat - 48)
  else if 'a' ≤ c ∧ c ≤ 'f' then some (c.toNat - 87)
  else if 'A' ≤ c ∧ c ≤ 'F' then some (c.toNat - 55)
  else none

/-- Two characters as a number in base 16; the first one may be a plus sign. -/
def fromStrRadix16 (c d : Char) : Except Fault UInt8 :=
  match if c = '+' then some 0 else hexDigit c, hexDigit d with
  | some high, some low => .ok (UInt8.ofNat (16 * high + low))
  | _, _ => .error (.error "invalid digit found in string")

/-- The pairs of bytes of a text. A character of two bytes fills a pair and is no
digit; one that crosses a pair cannot be sliced. -/
def fromHexPairs : List Char → Except Fault (List UInt8)
  | [] => .ok []
  | [c] =>
    if c.utf8Size = 2 then .error (.error "invalid digit found in string")
    else .error (.panic "byte index is not a char boundary")
  | c :: d :: rest =>
    if c.utf8Size = 2 then .error (.error "invalid digit found in string")
    else if c.utf8Size = 1 ∧ d.utf8Size = 1 then do
      let byte ← fromStrRadix16 c d
      let bytes ← fromHexPairs rest
      .ok (byte :: bytes)
    else .error (.panic "byte index is not a char boundary")

def fromHex (input : List Char) : Except Fault (List UInt8) :=
  if byteLength input % 2 ≠ 0 then .error (.error "odd-length hex string")
  else fromHexPairs input

/-- A slice as a nonce; another length is an assertion failure. -/
def Nonce.fromSlice (bytes : List UInt8) : Except Fault Nonce :=
  if h : bytes.length = 12 then .ok ⟨bytes, h⟩
  else .error (.panic ("assertion failed: nonce of length " ++ toString bytes.length))

def readStore (file : File) : Map String String := file.getD Map.empty

def renderEntry (nonce : Nonce) (ciphertext : List UInt8) : String :=
  String.ofList (toHex nonce.bytes ++ ':' :: toHex ciphertext)

section Accounts

variable (cipher : Cipher)

/-- The value of an entry. -/
def openEntry (account raw : String) : Except Fault String :=
  match splitOnce ':' raw.toList with
  | none => .error (.error ("corrupt credential entry for '" ++ account ++ "'"))
  | some (nonceHex, ciphertextHex) => do
    let nonceBytes ← fromHex nonceHex
    let nonce ← Nonce.fromSlice nonceBytes
    let ciphertext ← fromHex ciphertextHex
    match cipher.decrypt nonce ciphertext with
    | none => .error (.error ("failed to decrypt credential for '" ++ account ++ "'"))
    | some plaintext => fromUtf8 plaintext

def loadFromFile (file : File) (account : String) : Except Fault (Option String) :=
  match (readStore file).get account with
  | none => .ok none
  | some raw => (openEntry cipher account raw).map some

end Accounts

theorem fromUtf8_utf8Bytes (value : String) : fromUtf8 (utf8Bytes value) = .ok value := by
  have hbytes : (⟨(utf8Bytes value).toArray⟩ : ByteArray) = value.toByteArray := by
    simp [utf8Bytes]
  have hread : String.fromUTF8? value.toByteArray = some value := by
    rw [String.fromUTF8?, dif_pos value.isValidUTF8]
    rfl
  rw [fromUtf8, hbytes, hread]

theorem utf8Bytes_injective : Function.Injective utf8Bytes := by
  intro value value' h
  have hread := fromUtf8_utf8Bytes value
  rw [h, fromUtf8_utf8Bytes] at hread
  exact (Except.ok.inj hread).symm

theorem fromUtf8_eq_ok {bytes : List UInt8} {value : String} (h : fromUtf8 bytes = .ok value) :
    bytes = utf8Bytes value := by
  unfold fromUtf8 at h
  split at h
  · rename_i found hfound
    obtain rfl := Except.ok.inj h
    unfold String.fromUTF8? at hfound
    split at hfound
    · rw [← Option.some.inj hfound]
      show bytes = bytes.toArray.toList
      rw [List.toList_toArray]
    · contradiction
  · contradiction

theorem hexDigit_digitChar : ∀ n < 16, hexDigit (Nat.digitChar n) = some n := by
  decide

theorem digitChar_plain : ∀ n < 16,
    Nat.digitChar n ≠ '+' ∧ Nat.digitChar n ≠ ':' ∧ (Nat.digitChar n).utf8Size = 1 := by
  decide

theorem toHex_cons (b : UInt8) (bytes : List UInt8) :
    toHex (b :: bytes) =
      Nat.digitChar (b.toNat / 16) :: Nat.digitChar (b.toNat % 16) :: toHex bytes := rfl

theorem byteLength_toHex (bytes : List UInt8) : byteLength (toHex bytes) = 2 * bytes.length := by
  induction bytes with
  | nil => rfl
  | cons b bytes ih =>
    have hb := b.toNat_lt
    have hhigh := (digitChar_plain (b.toNat / 16) (by omega)).2.2
    have hlow := (digitChar_plain (b.toNat % 16) (by omega)).2.2
    rw [toHex_cons]
    simp only [byteLength, List.map_cons, List.sum_cons, hhigh, hlow] at ih ⊢
    rw [ih, List.length_cons]
    omega

theorem fromStrRadix16_digitChar (b : UInt8) :
    fromStrRadix16 (Nat.digitChar (b.toNat / 16)) (Nat.digitChar (b.toNat % 16)) = .ok b := by
  have hb := b.toNat_lt
  have hplus := (digitChar_plain (b.toNat / 16) (by omega)).1
  have hhigh := hexDigit_digitChar (b.toNat / 16) (by omega)
  have hlow := hexDigit_digitChar (b.toNat % 16) (by omega)
  have hsum : 16 * (b.toNat / 16) + b.toNat % 16 = b.toNat := by omega
  simp only [fromStrRadix16, hplus, if_false, hhigh, hlow, hsum, UInt8.ofNat_toNat]

theorem fromHexPairs_toHex (bytes : List UInt8) : fromHexPairs (toHex bytes) = .ok bytes := by
  induction bytes with
  | nil => rfl
  | cons b bytes ih =>
    have hb := b.toNat_lt
    have hhigh := (digitChar_plain (b.toNat / 16) (by omega)).2.2
    have hlow := (digitChar_plain (b.toNat % 16) (by omega)).2.2
    rw [toHex_cons, fromHexPairs, if_neg (by omega), if_pos ⟨hhigh, hlow⟩,
      fromStrRadix16_digitChar, Results.ok_bind, ih, Results.ok_bind]

/-- The hexadecimal text of bytes is read back. -/
theorem fromHex_toHex (bytes : List UInt8) : fromHex (toHex bytes) = .ok bytes := by
  have heven : ¬ byteLength (toHex bytes) % 2 ≠ 0 := by
    rw [byteLength_toHex]
    omega
  rw [fromHex, if_neg heven, fromHexPairs_toHex]

theorem colon_notMem_toHex (bytes : List UInt8) : ':' ∉ toHex bytes := by
  intro hmem
  obtain ⟨b, -, hb⟩ := List.mem_flatMap.mp hmem
  have hlt := b.toNat_lt
  have hhigh := (digitChar_plain (b.toNat / 16) (by omega)).2.1
  have hlow := (digitChar_plain (b.toNat % 16) (by omega)).2.1
  rcases List.mem_cons.mp hb with heq | hrest
  · exact hhigh heq.symm
  · exact hlow (List.mem_singleton.mp hrest).symm

theorem fromSlice_bytes (nonce : Nonce) : Nonce.fromSlice nonce.bytes = .ok nonce := by
  rw [Nonce.fromSlice, dif_pos nonce.length_eq]

/-- An entry that was written is opened again. -/
theorem openEntry_renderEntry (cipher : Cipher) {nonce : Nonce} {value : String}
    {ciphertext : List UInt8} (h : cipher.encrypt nonce (utf8Bytes value) = some ciphertext)
    (account : String) :
    openEntry cipher account (renderEntry nonce ciphertext) = .ok value := by
  have hsplit : splitOnce ':' (renderEntry nonce ciphertext).toList =
      some (toHex nonce.bytes, toHex ciphertext) := by
    rw [renderEntry, String.toList_ofList]
    exact splitOnce_append ':' _ _ (colon_notMem_toHex nonce.bytes)
  simp only [openEntry, hsplit, fromHex_toHex, fromSlice_bytes, Results.ok_bind,
    cipher.decrypt_encrypt nonce _ _ h, fromUtf8_utf8Bytes]

/-- A cipher that adds a tag of sixteen bytes. -/
def taggingCipher : Cipher where
  encrypt := fun _ plaintext => some (plaintext ++ List.replicate 16 0)
  decrypt := fun _ ciphertext =>
    if 16 ≤ ciphertext.length then some (ciphertext.take (ciphertext.length - 16)) else none
  decrypt_encrypt := by
    intro nonce plaintext ciphertext h
    rw [← Option.some.inj h]
    simp

theorem length_zeros : (List.replicate 12 (0 : UInt8)).length = 12 := rfl

/-- A nonce of zeros. -/
def zeroNonce : Nonce := ⟨List.replicate 12 0, length_zeros⟩

end SqlServerMcp.CredentialFile
