import SqlServerMcp.CredentialFile
import SqlServerMcp.LastWrite

/-!
The file of credentials as bytes on the disk. A read that fails in any way counts
as no entries, and every change rewrites the whole file. A change may fail before
the file is written, while it is written, or when its permissions are set: the
file then has what it had, a part of the new text, or all of it.
-/
namespace SqlServerMcp.CredentialDisk

open AssocMap LastWrite Runs SqlValue Text
open CredentialFile hiding loadFromFile

/-- What the JSON library does with maps of strings. A map may be written in any
order of its entries, and what was written is read back. -/
structure JsonMaps where
  render : Map String String → String
  parse : String → Option (Map String String)
  parse_render : ∀ store, ∃ read, parse (render store) = some read ∧
    ∀ account, read.get account = store.get account

/-- The text of a map that is cut short is no map: its last brace is missing. -/
def JsonMaps.CutShort (json : JsonMaps) : Prop :=
  ∀ store part, part <+: (json.render store).toList.dropLast →
    json.parse (String.ofList part) = none

/-- The bytes of the file, or `none` where they cannot be read. -/
abbrev Content := Option (List UInt8)

/-- How far a rewrite of the file gets. One that fails while the file is written
has emptied the file and then written some of the bytes, the last one not among
them. -/
inductive Rewrite where
  | done
  | noDirectory (err : String)
  | notOpened (err : String)
  | notWritten (err : String) (written : ℕ)
  | notRestricted (err : String)
  deriving DecidableEq

section Disk

variable (json : JsonMaps)

def readFile (content : Content) : File :=
  content.bind fun bytes => (String.fromUTF8? ⟨bytes.toArray⟩).bind json.parse

def writeStore (rewrite : Rewrite) (content : Content) (store : Map String String) :
    Except Fault Unit × Content :=
  let contents := utf8Bytes (json.render store)
  match rewrite with
  | .done => (.ok (), some contents)
  | .noDirectory err | .notOpened err => (.error (.error err), content)
  | .notWritten err written => (.error (.error err), some (contents.dropLast.take written))
  | .notRestricted err => (.error (.error err), some contents)

variable (cipher : Cipher)

def saveToFile (nonce : Nonce) (rewrite : Rewrite) (content : Content) (account value : String) :
    Except Fault Unit × Content :=
  match cipher.encrypt nonce (utf8Bytes value) with
  | none => (.error (.error "failed to encrypt credential"), content)
  | some ciphertext =>
    writeStore json rewrite content
      ((readStore (readFile json content)).insert account (renderEntry nonce ciphertext))

def loadFromFile (content : Content) (account : String) : Except Fault (Option String) :=
  CredentialFile.loadFromFile cipher (readFile json content) account

def deleteFromFile (rewrite : Rewrite) (content : Content) (account : String) :
    Except Fault Unit × Content :=
  let store := readStore (readFile json content)
  if (store.get account).isSome then writeStore json rewrite content (store.erase account)
  else (.ok (), content)

/-- What a rewrite with a new entry of one account, or without its entry, leaves of
an account, itself or another: a value, nothing, or what was there. -/
def Rewrite.leaves (own : Prop) [Decidable own] (value : Option String) :
    Rewrite → Option (Option String)
  | .done | .notRestricted _ => if own then some value else none
  | .notWritten _ _ => some none
  | .noDirectory _ | .notOpened _ => none

theorem fromUTF8?_utf8Bytes (value : String) :
    String.fromUTF8? ⟨(utf8Bytes value).toArray⟩ = some value := by
  have hread := fromUtf8_utf8Bytes value
  unfold fromUtf8 at hread
  split at hread
  · rename_i found hfound
    rw [hfound, Except.ok.inj hread]
  · contradiction

/-- What was written is read back, entry by entry. -/
theorem get_readFile_render (store : Map String String) (account : String) :
    (readStore (readFile json (some (utf8Bytes (json.render store))))).get account =
      store.get account := by
  obtain ⟨read, hparse, hget⟩ := json.parse_render store
  rw [readFile, Option.bind_some, fromUTF8?_utf8Bytes, Option.bind_some, hparse, readStore,
    Option.getD_some, hget]

/-- A text whose bytes are the first ones of another's is a beginning of it. -/
theorem toList_isPrefix {part whole : String} (h : utf8Bytes part <+: utf8Bytes whole) :
    part.toList <+: whole.toList := by
  obtain ⟨rest, hrest⟩ := h
  apply List.isPrefix_of_utf8Encode_append_eq_utf8Encode ⟨rest.toArray⟩
  rw [String.utf8Encode_toList, String.utf8Encode_toList]
  apply ByteArray.ext
  rw [ByteArray.data_append, ← Array.toList_inj, Array.toList_append]
  exact hrest

theorem toList_isPrefix_dropLast {part whole : String}
    (h : utf8Bytes part <+: (utf8Bytes whole).dropLast) :
    part.toList <+: whole.toList.dropLast := by
  obtain ⟨rest, hrest⟩ := toList_isPrefix (h.trans (List.dropLast_prefix _))
  by_cases hnil : rest = []
  · -- the whole text in fewer bytes than it has: it has none
    rw [hnil, List.append_nil] at hrest
    obtain rfl := String.toList_inj.mp hrest
    have hlength := h.length_le
    rw [List.length_dropLast] at hlength
    have hempty : utf8Bytes part = utf8Bytes "" := List.length_eq_zero_iff.mp (by omega)
    rw [utf8Bytes_injective hempty]
    exact List.nil_prefix
  · rw [← hrest, List.dropLast_append_of_ne_nil hnil]
    exact List.prefix_append _ _

/-- A file that was cut short while it was written reads as no entries. -/
theorem readFile_part (hcut : json.CutShort) (store : Map String String) (written : ℕ) :
    readFile json (some ((utf8Bytes (json.render store)).dropLast.take written)) = none := by
  rw [readFile, Option.bind_some]
  cases hread : String.fromUTF8?
      ⟨((utf8Bytes (json.render store)).dropLast.take written).toArray⟩ with
  | none => rfl
  | some part =>
    have hbytes : (utf8Bytes (json.render store)).dropLast.take written = utf8Bytes part := by
      apply fromUtf8_eq_ok
      rw [fromUtf8, hread]
    have hpart : utf8Bytes part <+: (utf8Bytes (json.render store)).dropLast :=
      hbytes ▸ List.take_prefix _ _
    rw [Option.bind_some, ← String.ofList_toList (s := part)]
    exact hcut store _ (toList_isPrefix_dropLast hpart)

/-- What any rewrite leaves of an account. -/
theorem loadFromFile_writeStore {rewrite : Rewrite} (hcut : rewrite ≠ .done → json.CutShort)
    {content : Content} {store : Map String String} {own : Prop} [Decidable own]
    {value : Option String} {account : String}
    (hown : own → loadFromFile json cipher (some (utf8Bytes (json.render store))) account =
      .ok value)
    (hother : ¬ own → (readStore (readFile json content)).get account = store.get account) :
    loadFromFile json cipher (writeStore json rewrite content store).2 account =
      ((rewrite.leaves own value).map .ok).getD (loadFromFile json cipher content account) := by
  have hwritten : loadFromFile json cipher (some (utf8Bytes (json.render store))) account =
      (((if own then some value else none).map .ok).getD
        (loadFromFile json cipher content account)) := by
    by_cases h : own
    · rw [if_pos h, hown h]
      rfl
    · rw [if_neg h]
      simp only [loadFromFile, CredentialFile.loadFromFile, get_readFile_render, hother h,
        Option.map_none, Option.getD_none]
  cases rewrite with
  | done => exact hwritten
  | notRestricted err => exact hwritten
  | noDirectory err => rfl
  | notOpened err => rfl
  | notWritten err written =>
    have hparse : json.CutShort := hcut (by simp)
    simp only [writeStore, loadFromFile, readFile_part json hparse]
    rfl

/-- What a save leaves of an account, whether it goes through or not. -/
theorem loadFromFile_save {nonce : Nonce} {account value : String} {ciphertext : List UInt8}
    (hencrypt : cipher.encrypt nonce (utf8Bytes value) = some ciphertext) {rewrite : Rewrite}
    (hcut : rewrite ≠ .done → json.CutShort) (content : Content) (other : String) :
    loadFromFile json cipher (saveToFile json cipher nonce rewrite content account value).2 other =
      ((rewrite.leaves (other = account) (some value)).map .ok).getD
        (loadFromFile json cipher content other) := by
  simp only [saveToFile, hencrypt]
  apply loadFromFile_writeStore json cipher hcut
  · rintro rfl
    simp only [loadFromFile, CredentialFile.loadFromFile, get_readFile_render, Map.get_insert_self,
      openEntry_renderEntry cipher hencrypt]
    rfl
  · intro hne
    rw [Map.get_insert_of_ne _ _ hne]

/-- What a delete of an entry leaves of an account. -/
theorem loadFromFile_delete {content : Content} {account : String}
    (hentry : ((readStore (readFile json content)).get account).isSome) {rewrite : Rewrite}
    (hcut : rewrite ≠ .done → json.CutShort) (other : String) :
    loadFromFile json cipher (deleteFromFile json rewrite content account).2 other =
      ((rewrite.leaves (other = account) none).map .ok).getD
        (loadFromFile json cipher content other) := by
  simp only [deleteFromFile, hentry, if_true]
  apply loadFromFile_writeStore json cipher hcut
  · rintro rfl
    simp only [loadFromFile, CredentialFile.loadFromFile, get_readFile_render, Map.get_erase,
      if_true]
  · intro hne
    rw [Map.get_erase, if_neg hne]

theorem loadFromFile_of_no_entry {content : Content} {account : String}
    (hentry : (readStore (readFile json content)).get account = none) :
    loadFromFile json cipher content account = .ok none := by
  simp only [loadFromFile, CredentialFile.loadFromFile, hentry]

theorem writeStore_ok_iff (rewrite : Rewrite) (content : Content) (store : Map String String) :
    (writeStore json rewrite content store).1 = .ok () ↔ rewrite = .done := by
  cases rewrite <;> simp [writeStore]

/-- The value is encrypted and the file is rewritten. -/
def CanSave (nonce : Nonce) (rewrite : Rewrite) (value : String) : Prop :=
  (cipher.encrypt nonce (utf8Bytes value)).isSome ∧ rewrite = .done

instance (nonce : Nonce) (rewrite : Rewrite) (value : String) :
    Decidable (CanSave cipher nonce rewrite value) :=
  inferInstanceAs (Decidable (_ ∧ _))

theorem saveToFile_ok_iff (nonce : Nonce) (rewrite : Rewrite) (content : Content)
    (account value : String) :
    (saveToFile json cipher nonce rewrite content account value).1 = .ok () ↔
      CanSave cipher nonce rewrite value := by
  unfold saveToFile CanSave
  cases hencrypt : cipher.encrypt nonce (utf8Bytes value) with
  | none => exact iff_of_false nofun fun h => absurd h.1 Bool.false_ne_true
  | some ciphertext =>
    simp only [writeStore_ok_iff, Option.isSome_some, true_and]

/-- A save that does not go through returns an error. -/
theorem saveToFile_of_not_canSave {nonce : Nonce} {rewrite : Rewrite} {value : String}
    (h : ¬ CanSave cipher nonce rewrite value) (content : Content) (account : String) :
    ∃ message, (saveToFile json cipher nonce rewrite content account value).1 =
      .error (.error message) := by
  unfold saveToFile
  cases hencrypt : cipher.encrypt nonce (utf8Bytes value) with
  | none => exact ⟨_, rfl⟩
  | some ciphertext =>
    cases rewrite with
    | done => exact absurd ⟨Option.isSome_of_eq_some hencrypt, rfl⟩ h
    | noDirectory err | notOpened err | notRestricted err => exact ⟨err, rfl⟩
    | notWritten err written => exact ⟨err, rfl⟩

theorem deleteFromFile_ok_iff (rewrite : Rewrite) (content : Content) (account : String) :
    (deleteFromFile json rewrite content account).1 = .ok () ↔
      (((readStore (readFile json content)).get account).isSome → rewrite = .done) := by
  by_cases hentry : ((readStore (readFile json content)).get account).isSome
  · simp only [deleteFromFile, hentry, if_true, writeStore_ok_iff, true_implies]
  · simp only [deleteFromFile, hentry, Bool.false_eq_true, if_false, false_implies]

/-- A save that goes through is loaded, and leaves the other accounts. -/
theorem loadFromFile_saved {nonce : Nonce} {rewrite : Rewrite} {content : Content}
    {account value : String}
    (h : (saveToFile json cipher nonce rewrite content account value).1 = .ok ())
    (other : String) :
    loadFromFile json cipher (saveToFile json cipher nonce rewrite content account value).2 other =
      if other = account then .ok (some value) else loadFromFile json cipher content other := by
  obtain ⟨hencrypt, rfl⟩ := (saveToFile_ok_iff json cipher _ _ _ _ _).mp h
  obtain ⟨ciphertext, hencrypt⟩ := Option.isSome_iff_exists.mp hencrypt
  rw [loadFromFile_save json cipher hencrypt (absurd rfl), Rewrite.leaves]
  split <;> rfl

/-- A delete that goes through leaves the other accounts. -/
theorem loadFromFile_deleted {rewrite : Rewrite} {content : Content} {account : String}
    (h : (deleteFromFile json rewrite content account).1 = .ok ()) (other : String) :
    loadFromFile json cipher (deleteFromFile json rewrite content account).2 other =
      if other = account then .ok none else loadFromFile json cipher content other := by
  cases hentry : (readStore (readFile json content)).get account with
  | some raw =>
    have hsome := Option.isSome_of_eq_some hentry
    obtain rfl := (deleteFromFile_ok_iff json _ _ _).mp h hsome
    rw [loadFromFile_delete json cipher hsome (absurd rfl), Rewrite.leaves]
    split <;> rfl
  | none =>
    simp only [deleteFromFile, hentry, Option.isSome_none, Bool.false_eq_true, if_false]
    split
    · rename_i hother
      rw [hother, loadFromFile_of_no_entry json cipher hentry]
    · rfl

end Disk
section Runs

/-- A change of the file, with what it finds around it. -/
inductive Call where
  | save (nonce : Nonce) (rewrite : Rewrite) (account value : String)
  | delete (rewrite : Rewrite) (account : String)

/-- What a call leaves for an account: a value, nothing, or what was there. -/
def Call.touches (account : String) : Call → Option (Option String)
  | .save _ _ a value => if account = a then some (some value) else none
  | .delete _ a => if account = a then some none else none

variable (json : JsonMaps) (cipher : Cipher)

def apply (content : Content) : Call → Except Fault Unit × Content
  | .save nonce rewrite account value =>
    saveToFile json cipher nonce rewrite content account value
  | .delete rewrite account => deleteFromFile json rewrite content account

/-- A run goes on after a call that succeeds. -/
def step (content : Content) (c : Call) : Option Content :=
  match (apply json cipher content c).1 with
  | .ok () => some (apply json cipher content c).2
  | .error _ => none

theorem step_eq_some {content next : Content} {c : Call}
    (h : step json cipher content c = some next) :
    (apply json cipher content c).1 = .ok () ∧ (apply json cipher content c).2 = next := by
  unfold step at h
  split at h
  · rename_i hok
    exact ⟨hok, Option.some.inj h⟩
  · contradiction

/-- What a call that succeeds does to what is loaded. -/
theorem loadFromFile_step (account : String) (content : Content) (c : Call) (next : Content)
    (h : step json cipher content c = some next) :
    loadFromFile json cipher next account =
      ((c.touches account).map Except.ok).getD (loadFromFile json cipher content account) := by
  obtain ⟨hok, rfl⟩ := step_eq_some json cipher h
  cases c with
  | save nonce rewrite a value =>
    rw [apply, loadFromFile_saved json cipher hok, Call.touches]
    split <;> rfl
  | delete rewrite a =>
    rw [apply, loadFromFile_deleted json cipher hok, Call.touches]
    split <;> rfl

/-- What is loaded of an account after a run: the value saved last, nothing after
a delete, and what was loaded before where no call touched it. -/
structure LoadsLast (content last : Content) (calls : List Call) (account : String) : Prop where
  saved : ∀ before nonce rewrite value after,
    calls = before ++ .save nonce rewrite account value :: after →
      (∀ c ∈ after, c.touches account = none) →
        loadFromFile json cipher last account = .ok (some value)
  deleted : ∀ before rewrite after, calls = before ++ .delete rewrite account :: after →
    (∀ c ∈ after, c.touches account = none) → loadFromFile json cipher last account = .ok none
  untouched : (∀ c ∈ calls, c.touches account = none) →
    loadFromFile json cipher last account = loadFromFile json cipher content account

end Runs

section Sample

/-- An entry as a line of two hexadecimal words. -/
def hexLine (e : String × String) : List Char :=
  toHex (utf8Bytes e.1) ++ ':' :: toHex (utf8Bytes e.2)

def readHexWord (word : List Char) : Except Fault String := do
  let bytes ← fromHex word
  fromUtf8 bytes

def readHexLine (line : List Char) : Except Fault (String × String) :=
  match splitOnce ':' line with
  | none => .error (.error "no colon")
  | some (key, value) => do
    let key ← readHexWord key
    let value ← readHexWord value
    .ok (key, value)

theorem readHexWord_toHex (word : String) : readHexWord (toHex (utf8Bytes word)) = .ok word := by
  rw [readHexWord, fromHex_toHex, Results.ok_bind, fromUtf8_utf8Bytes]

theorem readHexLine_hexLine (e : String × String) : readHexLine (hexLine e) = .ok e := by
  rw [readHexLine, hexLine, splitOnce_append ':' _ _ (colon_notMem_toHex _)]
  simp only [readHexWord_toHex, Results.ok_bind]

theorem notMem_hexLine (e : String × String) {c : Char} (hcolon : c ≠ ':')
    (hplain : ∀ n < 16, c ≠ Nat.digitChar n) : c ∉ hexLine e := by
  have hdigit : ∀ bytes : List UInt8, c ∉ toHex bytes := by
    intro bytes hbytes
    obtain ⟨b, -, hb⟩ := List.mem_flatMap.mp hbytes
    have hlt := b.toNat_lt
    rcases List.mem_cons.mp hb with heq | hrest
    · exact hplain (b.toNat / 16) (by omega) heq
    · exact hplain (b.toNat % 16) (by omega) (List.mem_singleton.mp hrest)
  intro hmem
  rcases List.mem_append.mp hmem with hkey | hvalue
  · exact hdigit _ hkey
  · rcases List.mem_cons.mp hvalue with heq | hrest
    · exact hcolon heq
    · exact hdigit _ hrest

def hexLines (store : Map String String) : List Char :=
  store.entries.flatMap fun e => hexLine e ++ [',']

theorem semicolon_notMem_hexLines (store : Map String String) : ';' ∉ hexLines store := by
  intro hmem
  obtain ⟨e, -, he⟩ := List.mem_flatMap.mp hmem
  rcases List.mem_append.mp he with hline | hcomma
  · exact notMem_hexLine e (by decide) (by decide) hline
  · exact absurd (List.mem_singleton.mp hcomma) (by decide)

def readHexLines (lines : List Char) : Option (Map String String) :=
  match (splitAll ',' lines).dropLast.mapM readHexLine with
  | .ok entries => some (entries.foldl (fun store e => store.insert e.1 e.2) Map.empty)
  | .error _ => none

theorem readHexLines_hexLines (store : Map String String) :
    readHexLines (hexLines store) = some store := by
  have hlines : ∀ entries : List (String × String),
      splitAll ',' (entries.flatMap fun e => hexLine e ++ [',']) =
        entries.map hexLine ++ [[]] := by
    intro entries
    induction entries with
    | nil => rfl
    | cons e rest ih =>
      rw [List.flatMap_cons, List.append_assoc, List.singleton_append,
        splitAll_append ',' _ (notMem_hexLine e (by decide) (by decide)), ih, List.map_cons,
        List.cons_append]
  have hread : (store.entries.map hexLine).mapM readHexLine = .ok store.entries := by
    rw [Results.mapM_eq_ok_iff, List.forall₂_map_left_iff, List.forall₂_same]
    intro e _
    exact readHexLine_hexLine e
  rw [readHexLines, hexLines, hlines, List.dropLast_concat, hread]
  exact congrArg some (Map.ext (Map.entries_foldl_insert_of_distinct _ store.distinct))

/-- Maps as lines of hexadecimal words, each ended by a comma, and a semicolon
after the last one. -/
def hexMaps : JsonMaps where
  render store := String.ofList (hexLines store ++ [';'])
  parse text :=
    if text.toList.getLast? = some ';' then readHexLines text.toList.dropLast else none
  parse_render store := by
    refine ⟨store, ?_, fun _ => rfl⟩
    rw [String.toList_ofList, List.getLast?_concat, if_pos rfl, List.dropLast_concat,
      readHexLines_hexLines]

theorem hexMaps_cutShort : hexMaps.CutShort := by
  intro store part h
  simp only [hexMaps, String.toList_ofList, List.dropLast_concat] at h ⊢
  refine if_neg fun hlast => ?_
  exact semicolon_notMem_hexLines store (h.subset (List.mem_of_getLast? hlast))

theorem step_save (content : Content) (account value : String) :
    ∃ next, step hexMaps taggingCipher content (.save zeroNonce .done account value) =
      some next := by
  have hok : (apply hexMaps taggingCipher content (.save zeroNonce .done account value)).1 =
      .ok () := (saveToFile_ok_iff _ _ _ _ _ _ _).mpr ⟨rfl, rfl⟩
  rw [step, hok]
  exact ⟨_, rfl⟩

theorem step_delete (content : Content) (account : String) :
    ∃ next, step hexMaps taggingCipher content (.delete .done account) = some next := by
  have hok : (apply hexMaps taggingCipher content (.delete .done account)).1 = .ok () :=
    (deleteFromFile_ok_iff _ _ _ _).mpr fun _ => rfl
  rw [step, hok]
  exact ⟨_, rfl⟩

/-- Two accounts are saved, one of them is deleted and the other saved again. -/
def sampleCalls : List Call :=
  [.save zeroNonce .done "account" "old", .save zeroNonce .done "gone" "value",
    .delete .done "gone", .save zeroNonce .done "account" "new"]

/-- A file with the entry of a third account. -/
def sampleContent : Content :=
  let sealed_ := utf8Bytes "kept" ++ List.replicate 16 0
  some (utf8Bytes (hexMaps.render (Map.empty.insert "other" (renderEntry zeroNonce sealed_))))

end Sample

end SqlServerMcp.CredentialDisk
