import SqlServerMcp.CredentialDisk

/-!
The two stores of credentials. A call uses the keychain of the system where it
answers and the encrypted file where it does not; whether it answers may change
from call to call. A save or a delete in the file may fail before, while or after
the file is written. What a load returns is put in terms of the calls before it.
-/
namespace SqlServerMcp.CredentialStorage

open AssocMap LastWrite SqlValue
open CredentialDisk (CanSave Content JsonMaps Rewrite deleteFromFile deleteFromFile_ok_iff hexMaps
  hexMaps_cutShort loadFromFile loadFromFile_of_no_entry readFile saveToFile saveToFile_ok_iff)
open CredentialFile (Cipher Nonce readStore taggingCipher utf8Bytes zeroNonce)

inductive KeyringError where
  | noEntry
  | platformFailure
  deriving DecidableEq

structure Storage where
  keychain : Map String String
  file : Content

/-- What a call finds around it: whether the keychain answers, a fresh nonce, and
how far a rewrite of the file gets. -/
structure Env where
  available : Bool
  nonce : Nonce
  rewrite : Rewrite

def Storage.empty : Storage := ⟨Map.empty, none⟩

section Keychain

variable (env : Env) (keychain : Map String String) (account : String)

def setPassword (value : String) : Except KeyringError (Map String String) :=
  if env.available then .ok (keychain.insert account value) else .error .platformFailure

def getPassword : Except KeyringError String :=
  if env.available then
    match keychain.get account with
    | some password => .ok password
    | none => .error .noEntry
  else .error .platformFailure

def deletePassword : Except KeyringError (Map String String) :=
  if env.available then
    match keychain.get account with
    | some _ => .ok (keychain.erase account)
    | none => .error .noEntry
  else .error .platformFailure

end Keychain

section Calls

variable (json : JsonMaps) (cipher : Cipher) (env : Env) (s : Storage) (account : String)

def saveCredential (value : String) : Except Fault Unit × Storage :=
  match setPassword env s.keychain account value with
  | .ok keychain => (.ok (), { s with keychain := keychain })
  | .error _ =>
    let saved := saveToFile json cipher env.nonce env.rewrite s.file account value
    (saved.1, { s with file := saved.2 })

def loadCredential : Except Fault (Option String) :=
  match getPassword env s.keychain account with
  | .ok password => .ok (some password)
  | .error _ => loadFromFile json cipher s.file account

def deleteCredential : Except Fault Unit × Storage :=
  match deletePassword env s.keychain account with
  | .ok keychain => (.ok (), { s with keychain := keychain })
  | .error .noEntry => (.ok (), s)
  | .error .platformFailure =>
    let deleted := deleteFromFile json env.rewrite s.file account
    (deleted.1, { s with file := deleted.2 })

end Calls

inductive Operation where
  | save (account value : String)
  | load (account : String)
  | delete (account : String)

structure Call where
  env : Env
  operation : Operation

variable (json : JsonMaps) (cipher : Cipher)

def apply (s : Storage) (c : Call) : Storage :=
  match c.operation with
  | .save account value => (saveCredential json cipher c.env s account value).2
  | .load _ => s
  | .delete account => (deleteCredential json c.env s account).2

/-- The stores after calls that start from nothing. -/
def run (calls : List Call) : Storage := calls.foldl (apply json cipher) Storage.empty

/-- Calls that start from nothing, with the stores that they find. -/
def history (calls : List Call) : List (Storage × Call) :=
  visits (apply json cipher) Storage.empty calls

/-- The value that a successful save writes for the account, to either store. -/
def Call.saved (account : String) (c : Call) : Option String :=
  match c.operation with
  | .save a value =>
    if account = a ∧ (c.env.available = true ∨ CanSave cipher c.env.nonce c.env.rewrite value)
    then some value
    else none
  | _ => none

/-- What a call leaves for the account in the keychain, or else in the file;
`none` where it leaves there what it found. A save or a delete that fails may
still change the file, for all accounts when it is cut short. -/
def leaves (toKeychain : Bool) (account : String) : Storage × Call → Option (Option String)
  | (s, ⟨env, operation⟩) =>
    if env.available ≠ toKeychain then none
    else
      match toKeychain, operation with
      | _, .load _ => none
      | true, .save a value => if account = a then some (some value) else none
      | true, .delete a => if account = a then some none else none
      | false, .save a value =>
        if (cipher.encrypt env.nonce (utf8Bytes value)).isSome then
          env.rewrite.leaves (account = a) (some value)
        else none
      | false, .delete a =>
        if ((readStore (readFile json s.file)).get a).isSome then
          env.rewrite.leaves (account = a) none
        else none

variable {json cipher} in
/-- A save leaves its value or, in a file that is cut short, nothing. -/
theorem leaves_save {toKeychain : Bool} {account a value : String} {s : Storage} {env : Env}
    {left : Option String}
    (h : leaves json cipher toKeychain account (s, ⟨env, .save a value⟩) = some left) :
    left = some value ∨ left = none := by
  by_cases havailable : env.available = toKeychain
  · cases toKeychain with
    | true =>
      simp only [leaves, havailable, ne_eq, not_true_eq_false, if_false,
        Option.ite_none_right_eq_some, Option.some.injEq] at h
      exact .inl h.2.symm
    | false =>
      simp only [leaves, havailable, ne_eq, not_true_eq_false, if_false,
        Option.ite_none_right_eq_some] at h
      obtain ⟨-, h⟩ := h
      cases hrewrite : env.rewrite <;>
        simp only [hrewrite, CredentialDisk.Rewrite.leaves, Option.ite_none_right_eq_some,
          Option.some.injEq, reduceCtorEq] at h
      · exact .inl h.2.symm
      · exact .inr h.symm
      · exact .inl h.2.symm
  · simp only [leaves, havailable, ne_eq, not_false_eq_true, if_true, reduceCtorEq] at h

theorem loadCredential_of_unavailable {env : Env} (h : env.available = false) (s : Storage)
    (account : String) :
    loadCredential json cipher env s account = loadFromFile json cipher s.file account := by
  simp only [loadCredential, getPassword, h, Bool.false_eq_true, if_false]

/-- A load asks the keychain first where it answers. -/
theorem loadCredential_of_available {env : Env} (h : env.available = true) (s : Storage)
    (account : String) :
    loadCredential json cipher env s account =
      match s.keychain.get account with
      | some password => .ok (some password)
      | none => loadFromFile json cipher s.file account := by
  cases hget : s.keychain.get account <;>
    simp only [loadCredential, getPassword, h, hget, if_true]

section Effects

variable (s : Storage) (env : Env) (a account : String)

theorem keychain_save (value : String) :
    (saveCredential json cipher env s a value).2.keychain.get account =
      if env.available = true ∧ account = a then some value else s.keychain.get account := by
  cases havailable : env.available with
  | true =>
    simp only [saveCredential, setPassword, havailable, if_true, Map.get_insert, true_and]
  | false =>
    simp only [saveCredential, setPassword, havailable, Bool.false_eq_true, if_false, false_and]

theorem keychain_delete :
    (deleteCredential json env s a).2.keychain.get account =
      if env.available = true ∧ account = a then none else s.keychain.get account := by
  cases havailable : env.available with
  | true =>
    cases hget : s.keychain.get a with
    | some password =>
      simp only [deleteCredential, deletePassword, havailable, hget, if_true, Map.get_erase,
        true_and]
    | none =>
      simp only [deleteCredential, deletePassword, havailable, hget, if_true, true_and]
      by_cases haccount : account = a
      · rw [if_pos haccount, haccount, hget]
      · rw [if_neg haccount]
  | false =>
    simp only [deleteCredential, deletePassword, havailable, Bool.false_eq_true, if_false,
      false_and]

theorem file_save (hcut : json.CutShort) (value : String) :
    loadFromFile json cipher (saveCredential json cipher env s a value).2.file account =
      ((leaves json cipher false account (s, ⟨env, .save a value⟩)).map .ok).getD
        (loadFromFile json cipher s.file account) := by
  cases havailable : env.available with
  | true => simp [saveCredential, setPassword, leaves, havailable]
  | false =>
    simp only [saveCredential, setPassword, leaves, havailable, Bool.false_eq_true, if_false,
      ne_eq, not_true_eq_false]
    cases hencrypt : cipher.encrypt env.nonce (utf8Bytes value) with
    | none =>
      simp only [saveToFile, hencrypt]
      rfl
    | some ciphertext =>
      rw [CredentialDisk.loadFromFile_save json cipher hencrypt fun _ => hcut]
      rfl

theorem file_delete (hcut : json.CutShort) :
    loadFromFile json cipher (deleteCredential json env s a).2.file account =
      ((leaves json cipher false account (s, ⟨env, .delete a⟩)).map .ok).getD
        (loadFromFile json cipher s.file account) := by
  cases havailable : env.available with
  | true => cases hget : s.keychain.get a <;>
      simp [deleteCredential, deletePassword, leaves, havailable, hget]
  | false =>
    simp only [deleteCredential, deletePassword, leaves, havailable, Bool.false_eq_true, if_false,
      ne_eq, not_true_eq_false]
    by_cases hentry : ((readStore (readFile json s.file)).get a).isSome
    · rw [CredentialDisk.loadFromFile_delete json cipher hentry fun _ => hcut, if_pos hentry]
    · simp only [deleteFromFile, hentry, Bool.false_eq_true, if_false]
      rfl

end Effects

/-- A call that leaves something in the keychain for the account sets what is found
there. -/
theorem keychain_apply (s : Storage) (c : Call) (account : String) :
    (apply json cipher s c).keychain.get account =
      ((leaves json cipher true account (s, c)).map id).getD (s.keychain.get account) := by
  obtain ⟨env, operation⟩ := c
  cases operation with
  | save a value =>
    rw [apply, keychain_save]
    by_cases havailable : env.available = true <;> by_cases haccount : account = a <;>
      simp [leaves, havailable, haccount]
  | load a => by_cases havailable : env.available = true <;> simp [apply, leaves, havailable]
  | delete a =>
    rw [apply, keychain_delete]
    by_cases havailable : env.available = true <;> by_cases haccount : account = a <;>
      simp [leaves, havailable, haccount]

/-- A call that leaves something in the file for the account sets what is loaded
from it. -/
theorem file_apply (hcut : json.CutShort) (s : Storage) (c : Call) (account : String) :
    loadFromFile json cipher (apply json cipher s c).file account =
      ((leaves json cipher false account (s, c)).map .ok).getD
        (loadFromFile json cipher s.file account) := by
  obtain ⟨env, operation⟩ := c
  cases operation with
  | save a value => exact file_save json cipher s env a account hcut value
  | load a => by_cases havailable : env.available = true <;> simp [apply, leaves, havailable]
  | delete a => exact file_delete json cipher s env a account hcut

theorem keychain_run (calls : List Call) (account : String) :
    (run json cipher calls).keychain.get account =
      held (leaves json cipher true account) (history json cipher calls) := by
  have hview := view_visits (fun s => s.keychain.get account) id
    (fun s c => keychain_apply json cipher s c account) Storage.empty calls
  rw [Option.map_id] at hview
  exact hview

theorem file_run (hcut : json.CutShort) (calls : List Call) (account : String) :
    loadFromFile json cipher (run json cipher calls).file account =
      .ok (held (leaves json cipher false account) (history json cipher calls)) := by
  have hview := view_visits (fun s => loadFromFile json cipher s.file account) Except.ok
    (fun s c => file_apply json cipher hcut s c account) Storage.empty calls
  refine hview.trans ?_
  rw [held, history]
  cases latest (leaves json cipher false account)
    (visits (apply json cipher) Storage.empty calls) <;> rfl

/-- A load returns what the keychain holds, where it answers, or else the file. -/
theorem load_run (hcut : json.CutShort) (calls : List Call) (load : Env) (account : String) :
    loadCredential json cipher load (run json cipher calls) account =
      .ok ((if load.available then held (leaves json cipher true account)
          (history json cipher calls) else none).or
        (held (leaves json cipher false account) (history json cipher calls))) := by
  cases havailable : load.available with
  | true =>
    rw [loadCredential_of_available json cipher havailable, keychain_run,
      file_run json cipher hcut]
    cases held (leaves json cipher true account) (history json cipher calls) <;> rfl
  | false =>
    rw [loadCredential_of_unavailable json cipher havailable, file_run json cipher hcut]
    rfl

theorem mem_of_visit {s s' : Storage} {calls : List Call} {c : Call}
    (h : (s', c) ∈ visits (apply json cipher) s calls) : c ∈ calls := by
  rw [← @visits_snd _ _ (apply json cipher) s calls]
  exact List.mem_map_of_mem h

/-- A keychain that always answers, or never does, leaves one store in use. -/
theorem load_of_steady (hcut : json.CutShort) (calls : List Call) (load : Env)
    (hsteady : ∀ c ∈ calls, c.env.available = load.available) (account : String) :
    loadCredential json cipher load (run json cipher calls) account =
      .ok (held (leaves json cipher load.available account) (history json cipher calls)) := by
  have hunused : held (leaves json cipher (!load.available) account)
      (history json cipher calls) = none := by
    rw [held, (latest_eq_none_iff _).mpr]
    · rfl
    · intro v hv
      obtain ⟨s, env, operation⟩ := v
      have hsame := hsteady _ (mem_of_visit json cipher hv)
      exact if_pos fun h => Bool.not_ne_self _ (h.symm.trans hsame)
  rw [load_run json cipher hcut]
  cases hload : load.available with
  | false => rfl
  | true =>
    rw [hload] at hunused
    have hfile : held (leaves json cipher false account) (history json cipher calls) = none :=
      hunused
    rw [if_pos rfl, hfile, Option.or_none]

section Deletes

/-- Every value that was left in the store is cleared from it by a later call, be
it by one of a second part of the history. -/
def Cleared (toKeychain : Bool) (account : String) (visited later : List (Storage × Call)) :
    Prop :=
  ∀ done v rest value, visited = done ++ v :: rest →
    leaves json cipher toKeychain account v = some (some value) →
      ∃ d ∈ rest ++ later, leaves json cipher toKeychain account d = some none

/-- The calls after a delete, with the stores that they find. -/
def historyAfter (before : List Call) (delete : Env) (account : String) (after : List Call) :
    List (Storage × Call) :=
  visits (apply json cipher) (run json cipher (before ++ [⟨delete, .delete account⟩])) after

/-- What the calls before a delete left in the store that the delete does not use
is cleared from that store again, unless the load does not read it. -/
def OtherStoreCleared (delete load : Env) (account : String) (before after : List Call) : Prop :=
  (delete.available = false → load.available = true) →
    Cleared json cipher (!delete.available) account (history json cipher before)
      (historyAfter json cipher before delete account after)

/-- What saves after the delete left in the file is cleared again. -/
def LaterSavesCleared (delete : Env) (account : String) (before after : List Call) : Prop :=
  Cleared json cipher false account (historyAfter json cipher before delete account after) []

variable {json cipher}

theorem run_concat (calls : List Call) (c : Call) :
    run json cipher (calls ++ [c]) = apply json cipher (run json cipher calls) c :=
  List.foldl_concat _ _ _ _

theorem history_delete (before after : List Call) (delete : Env) (account : String) :
    history json cipher (before ++ ⟨delete, .delete account⟩ :: after) =
      history json cipher before ++
        (run json cipher before, ⟨delete, .delete account⟩) ::
          historyAfter json cipher before delete account after := by
  rw [historyAfter, run_concat]
  exact visits_append Storage.empty before _

/-- A delete leaves the store alone that it does not use. -/
theorem leaves_delete_other (s : Storage) (env : Env) (a account : String) :
    leaves json cipher (!env.available) account (s, ⟨env, .delete a⟩) = none := by
  simp [leaves]

/-- The keychain holds a value only after a save that goes through. -/
theorem leaves_keychain_of_not_saved {v : Storage × Call} {account : String}
    (h : v.2.saved cipher account = none) (value : String) :
    leaves json cipher true account v ≠ some (some value) := by
  obtain ⟨s, env, operation⟩ := v
  cases operation with
  | save a saved =>
    by_cases havailable : env.available = true <;> by_cases haccount : account = a <;>
      simp_all [leaves, Call.saved]
  | load a => simp [leaves]
  | delete a => by_cases haccount : account = a <;> simp [leaves, haccount]

/-- After a delete that went through, the store that it used holds nothing of the
account. -/
theorem held_after_delete (hcut : json.CutShort) {env : Env} {account : String}
    {before : List Call}
    (hok : (deleteCredential json env (run json cipher before) account).1 = .ok ()) :
    held (leaves json cipher env.available account)
      (history json cipher (before ++ [⟨env, .delete account⟩])) = none := by
  rw [history_delete, historyAfter, visits]
  cases havailable : env.available with
  | true =>
    apply held_concat_of_clear
    simp [leaves, havailable]
  | false =>
    cases hentry : (readStore (readFile json (run json cipher before).file)).get account with
    | some raw =>
      simp only [deleteCredential, deletePassword, havailable, Bool.false_eq_true, if_false,
        deleteFromFile_ok_iff, hentry, Option.isSome_some, true_implies] at hok
      apply held_concat_of_clear
      simp [leaves, havailable, hentry, hok, Rewrite.leaves]
    | none =>
      have hkeep : leaves json cipher false account
          (run json cipher before, ⟨env, .delete account⟩) = none := by
        simp [leaves, havailable, hentry]
      have hload := file_run json cipher hcut before account
      rw [loadFromFile_of_no_entry json cipher hentry] at hload
      rw [held_skip _ [] hkeep, List.append_nil, ← Except.ok.inj hload]

theorem load_ne_some_iff (hcut : json.CutShort) (calls : List Call) (load : Env)
    (account : String) :
    (∀ value, loadCredential json cipher load (run json cipher calls) account ≠
        .ok (some value)) ↔
      (load.available = true →
        held (leaves json cipher true account) (history json cipher calls) = none) ∧
      held (leaves json cipher false account) (history json cipher calls) = none := by
  rw [load_run json cipher hcut]
  cases load.available <;>
    cases held (leaves json cipher true account) (history json cipher calls) <;>
      cases held (leaves json cipher false account) (history json cipher calls) <;> simp

variable (json cipher)

/-- A call that finds the keychain as given, and whose rewrite of the file gets as
far as given. -/
def sampleEnv (available : Bool) (rewrite : Rewrite) : Env := ⟨available, zeroNonce, rewrite⟩

/-- A credential is saved to the file. -/
def savedToFile : List Call := [⟨sampleEnv false .done, .save "account" "value"⟩]

/-- A save fails after it has written the file. -/
def failedSave : List Call :=
  [⟨sampleEnv false (.notRestricted "Operation not permitted (os error 1)"),
    .save "account" "later"⟩]

theorem delete_keychain_ok (calls : List Call) (account : String) :
    (deleteCredential hexMaps (sampleEnv true .done) (run hexMaps taggingCipher calls)
      account).1 = .ok () := by
  cases hget : (run hexMaps taggingCipher calls).keychain.get account <;>
    simp [deleteCredential, deletePassword, sampleEnv, hget]

end Deletes

section Latest

variable (load : Env) (account : String) (calls : List Call)

/-- The keychain answers the load and holds a value for the account. -/
def answeredByKeychain : Bool :=
  load.available && (held (leaves json cipher true account) (history json cipher calls)).isSome

/-- After the call that last changed the store that answers the load no other value
was saved; and where this call failed, and no save went through after it, its value
is also the one saved last before it. -/
def NoLaterSave : Prop :=
  ∀ done v rest value, history json cipher calls = done ++ v :: rest →
    leaves json cipher (answeredByKeychain json cipher load account calls) account v =
        some (some value) →
      (∀ d ∈ rest,
          leaves json cipher (answeredByKeychain json cipher load account calls) account d =
            none) →
        (∀ later, latest (Call.saved cipher account) (rest.map Prod.snd) = some later →
          later = value) ∧
        (latest (Call.saved cipher account) ((v :: rest).map Prod.snd) = none →
          latest (Call.saved cipher account) (done.map Prod.snd) = some value)

variable {json cipher account}

/-- What a call that goes through leaves is what it saves. -/
theorem saved_of_leaves {v : Storage × Call} {toKeychain : Bool} {value saved : String}
    (h : leaves json cipher toKeychain account v = some (some value))
    (hsaved : v.2.saved cipher account = some saved) : saved = value := by
  obtain ⟨s, env, operation⟩ := v
  cases operation with
  | load a => contradiction
  | delete a => contradiction
  | save a value' =>
    obtain ⟨-, rfl⟩ : _ ∧ value' = saved := by
      simpa only [Call.saved, Option.ite_none_right_eq_some, Option.some.injEq] using hsaved
    rcases leaves_save h with hvalue | hnone
    · exact (Option.some.inj hvalue).symm
    · contradiction

theorem load_eq_held (hcut : json.CutShort) :
    loadCredential json cipher load (run json cipher calls) account =
      .ok (held (leaves json cipher (answeredByKeychain json cipher load account calls) account)
        (history json cipher calls)) := by
  rw [load_run json cipher hcut, answeredByKeychain]
  cases load.available with
  | false => rfl
  | true =>
    cases hkeychain : held (leaves json cipher true account) (history json cipher calls) <;>
      simp [hkeychain]

variable {calls}

/-- The last value saved, in the parts of a history around one of its calls. -/
theorem latest_saved_of_split {done rest : List (Storage × Call)} {v : Storage × Call}
    (hsplit : history json cipher calls = done ++ v :: rest) :
    latest (Call.saved cipher account) calls =
      ((latest (Call.saved cipher account) (rest.map Prod.snd)).or
        (v.2.saved cipher account)).or
          (latest (Call.saved cipher account) (done.map Prod.snd)) := by
  have hcalls : calls = done.map Prod.snd ++ ([v.2] ++ rest.map Prod.snd) := by
    have hsnd := @visits_snd _ _ (apply json cipher) Storage.empty calls
    rw [← hsnd]
    exact (congrArg (List.map Prod.snd) hsplit).trans (by simp)
  have hone : latest (Call.saved cipher account) [v.2] = v.2.saved cipher account := by
    simp [latest]
  rw [hcalls, latest_append, latest_append, hone]

variable (json cipher account calls)

/-- A load that returns a value returns the one that was saved last exactly when
nothing else was saved after the store that answers was last changed, and that
change was no other value's. -/
theorem load_latest_iff (hcut : json.CutShort) (value : String)
    (h : loadCredential json cipher load (run json cipher calls) account = .ok (some value)) :
    latest (Call.saved cipher account) calls = some value ↔
      NoLaterSave json cipher load account calls := by
  have hheld : latest (leaves json cipher (answeredByKeychain json cipher load account calls)
      account) (history json cipher calls) = some (some value) := by
    rw [load_eq_held load calls hcut] at h
    exact (held_eq_some_iff _ value).mp (Except.ok.inj h)
  constructor
  · intro hlatest done v rest value' hsplit hv hrest
    have hsame : latest (leaves json cipher (answeredByKeychain json cipher load account calls)
        account) (history json cipher calls) = some (some value') :=
      (latest_eq_some_iff _ _).mpr ⟨done, v, rest, hsplit, hv, hrest⟩
    rw [hheld] at hsame
    obtain rfl : value = value' := Option.some.inj (Option.some.inj hsame)
    rw [latest_saved_of_split hsplit] at hlatest
    constructor
    · intro later hlater
      rw [hlater] at hlatest
      exact Option.some.inj hlatest
    · intro hnone
      rw [List.map_cons, ← List.singleton_append, latest_append, Option.or_eq_none_iff] at hnone
      obtain ⟨hrestNone, hone⟩ := hnone
      have hvNone : v.2.saved cipher account = none := by simpa [latest] using hone
      rwa [hrestNone, hvNone] at hlatest
  · intro hno
    obtain ⟨done, v, rest, hsplit, hv, hrest⟩ := (latest_eq_some_iff _ _).mp hheld
    obtain ⟨hlater, hbefore⟩ := hno done v rest value hsplit hv hrest
    rw [latest_saved_of_split hsplit]
    cases hrestSaved : latest (Call.saved cipher account) (rest.map Prod.snd) with
    | some later => rw [hlater later hrestSaved]; rfl
    | none =>
      cases hvSaved : v.2.saved cipher account with
      | some saved => rw [saved_of_leaves hv hvSaved]; rfl
      | none =>
        rw [hbefore]
        · rfl
        · rw [List.map_cons, ← List.singleton_append, latest_append, hrestSaved]
          simp [latest, hvSaved]

/-- A value is saved to the keychain, and a newer one to the file. -/
def savedToBoth : List Call :=
  [⟨sampleEnv true .done, .save "account" "old"⟩, ⟨sampleEnv false .done, .save "account" "new"⟩]

theorem load_latest_iff_savedToBoth :
    latest (Call.saved taggingCipher "account") savedToBoth = some "new" ↔
      NoLaterSave hexMaps taggingCipher (sampleEnv false .done) "account" savedToBoth :=
  load_latest_iff hexMaps taggingCipher (sampleEnv false .done) "account" savedToBoth
    hexMaps_cutShort "new" (by rw [load_run _ _ hexMaps_cutShort]; rfl)

/-- Once the keychain answers again it returns the value that was replaced. -/
theorem load_stale_from_keychain :
    ¬ ∀ (json : JsonMaps) (cipher : Cipher) (calls : List Call) (load : Env)
        (account value : String), json.CutShort →
      loadCredential json cipher load (run json cipher calls) account = .ok (some value) →
        latest (Call.saved cipher account) calls = some value := by
  intro h
  have hload : loadCredential hexMaps taggingCipher (sampleEnv true .done)
      (run hexMaps taggingCipher savedToBoth) "account" = .ok (some "old") := by
    rw [load_run _ _ hexMaps_cutShort]
    rfl
  have hlatest := h hexMaps taggingCipher savedToBoth (sampleEnv true .done) "account" "old"
    hexMaps_cutShort hload
  revert hlatest
  decide

end Latest

end SqlServerMcp.CredentialStorage
