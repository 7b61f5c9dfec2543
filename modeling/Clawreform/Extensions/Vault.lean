import Clawreform.Lib.Base64
import Clawreform.Lib.FileStore
import Clawreform.Lib.JsonReading
import Clawreform.Lib.SerdeJson
import Clawreform.Lib.Store

namespace Clawreform.Extensions.Vault

open Clawreform.Lib Clawreform.Lib.Text Clawreform.Lib.Store Clawreform.Lib.Json
open Clawreform.Lib.Program Clawreform.Lib.Utf8
open Clawreform.Lib.FileStore (IoError WriteOutcome fromUtf8)

section Data

abbrev Bytes := List UInt8

/-- A master key, or one that is derived from it. -/
abbrev Key := {bytes : Bytes // bytes.length = 32}

abbrev Entries := Map Str Str

/-- The vault on the disk, with its parts in base64. -/
structure VaultFile where
  version : UInt8
  salt : Str
  nonce : Str
  ciphertext : Str
  deriving DecidableEq

structure CredentialVault where
  entries : Entries
  unlocked : Bool
  cachedKey : Option Key

def CredentialVault.new : CredentialVault := ⟨∅, false, none⟩

inductive ExtensionError where
  | vault (text : Str)
  | vaultLocked
  | io (e : IoError)
  deriving DecidableEq

/-- How an operation stops early. -/
inductive Stop where
  | failed (e : ExtensionError)
  | panicked
  deriving DecidableEq

/-- A vault with its file, and the file of the keyring. -/
structure World where
  vault : CredentialVault
  file : Option Bytes
  keyring : Option Bytes

/-- What an operation finds around it: the environment variable, the mask of the machine, what the
random generator yields, and how the accesses to files go. -/
structure Surroundings where
  envKey : Option Str
  mask : Key
  fresh : Key
  salt : {bytes : Bytes // bytes.length = 16}
  nonce : {bytes : Bytes // bytes.length = 12}
  keyringUnreadable : Bool
  keyringDir : Option IoError
  keyringWrite : WriteOutcome
  unreadable : Bool
  vaultDir : Option IoError
  vaultWrite : WriteOutcome

/-- What the vault uses of argon2, aes-gcm and serde_json, and the texts of two errors. -/
structure Libraries where
  hashPassword : Key → Bytes → Except Str Key
  encrypt : Key → Bytes → Bytes → Except Str Bytes
  decrypt : Key → Bytes → Bytes → Except Str Bytes
  parseFile : Str → Except Str VaultFile
  parseEntries : Bytes → Except Str Entries
  decodeError : Str → Str
  utf8Error : Bytes → Str

end Data

section Texts

def entriesJson (entries : Entries) : Bytes :=
  let secrets := entries.entries.map fun e => (e.1, Value.string e.2)
  encode (Value.toText (.object [("secrets".toList, .object secrets)]))

/-- `to_string_pretty` -/
def fileJson (f : VaultFile) : Str :=
  "\x7b\n  \"version\": ".toList ++ showNat f.version.toNat ++
    ",\n  \"salt\": ".toList ++ Value.quote f.salt ++
    ",\n  \"nonce\": ".toList ++ Value.quote f.nonce ++
    ",\n  \"ciphertext\": ".toList ++ Value.quote f.ciphertext ++ "\n\x7d".toList

def vaultMagic : Bytes := [0x4F, 0x46, 0x56, 0x31]

end Texts

variable (lib : Libraries) (env : Surroundings)

section Keys

def vaultError {α : Type} (text : String) (e : Str) : Except ExtensionError α :=
  .error (.vault (text.toList ++ e))

/-- A value of a library, or its error with some text in front. -/
def orError {α : Type} (text : String) (x : Except Str α) : Except ExtensionError α :=
  match x with
  | .ok a => .ok a
  | .error e => vaultError text e

def decodeBase64 (text : String) (s : Str) : Except ExtensionError Bytes :=
  orError text ((Base64.decode s).elim (.error (lib.decodeError s)) .ok)

def decodeMasterKey (text : Str) : Except ExtensionError Key := do
  let bytes ← decodeBase64 lib "Key decode failed: " text
  if h : bytes.length = 32 then .ok ⟨bytes, h⟩
  else vaultError "Invalid key length: expected 32, got " (showNat bytes.length)

def xorMask (bytes : Bytes) : Bytes :=
  bytes.mapIdx fun i b => b ^^^ env.mask.val.getD (i % env.mask.val.length) 0

/-- Its errors are all passed over by the callers. -/
def loadKeyringKey (keyring : Option Bytes) : Option Str := do
  let bytes ← keyring
  if env.keyringUnreadable then none
  let encoded ← fromUtf8 bytes
  let obfuscated ← Base64.decode (trim encoded)
  fromUtf8 (xorMask env obfuscated)

/-- What the file of the keyring holds after the key was stored, or was not. -/
def storeKeyringKey (text : Str) (keyring : Option Bytes) : Option Bytes :=
  if env.keyringDir.isSome then keyring
  else
    match env.keyringWrite with
    | .done => some (encode (Base64.encode (xorMask env (encode text))))
    | .failed left => left <|> keyring

/-- The key of the variable comes first here. -/
def existingKey (keyring : Option Bytes) : Option Str :=
  env.envKey <|> loadKeyringKey env keyring

/-- The key in the cache, then that of the keyring, then that of the variable. -/
def resolveKey (w : World) : Except ExtensionError Key :=
  match w.vault.cachedKey, loadKeyringKey env w.keyring, env.envKey with
  | some key, _, _ => .ok key
  | none, some text, _ => decodeMasterKey lib text
  | none, none, some text => decodeMasterKey lib text
  | none, none, none => .error .vaultLocked

end Keys

section Files

/-- What is saved of some entries. -/
def sealVault (masterKey : Key) (entries : Entries) : Except ExtensionError Bytes := do
  let derived ← orError "Key derivation failed: " (lib.hashPassword masterKey env.salt.val)
  let ciphertext ← orError "Encryption failed: "
    (lib.encrypt derived env.nonce.val (entriesJson entries))
  let content := fileJson ⟨1, Base64.encode env.salt.val, Base64.encode env.nonce.val,
    Base64.encode ciphertext⟩
  .ok (vaultMagic ++ encode content)

/-- The text behind the magic bytes, or all of it in a legacy file. -/
def contentOf (raw : Bytes) : Except ExtensionError Str :=
  let utf8 bytes :=
    orError "UTF-8 decode failed: " ((fromUtf8 bytes).elim (.error (lib.utf8Error bytes)) .ok)
  if vaultMagic <+: raw then utf8 (raw.drop vaultMagic.length)
  else if raw.head? = some 0x7B then utf8 raw
  else vaultError "Unrecognized vault file format" []

def readFile (raw : Bytes) : Except ExtensionError VaultFile := do
  let f ← orError "Vault file parse failed: " (lib.parseFile (← contentOf lib raw))
  if f.version = 1 then .ok f
  else vaultError "Unsupported vault version: " (showNat f.version.toNat)

/-- A nonce of another length makes the library panic. -/
def decryptEntries (derived : Key) (nonce ciphertext : Bytes) : Except Stop Entries :=
  if nonce.length = 12 then do
    let plaintext ← (orError "Decryption failed: " (lib.decrypt derived nonce ciphertext)).mapError
      .failed
    (orError "Vault data parse failed: " (lib.parseEntries plaintext)).mapError .failed
  else .error .panicked

/-- The entries that are loaded from what was read. -/
def openVault (masterKey : Key) (raw : Bytes) : Except Stop Entries := do
  let (nonce, ciphertext, derived) ← Except.mapError .failed do
    let f ← readFile lib raw
    let salt ← decodeBase64 lib "Salt decode failed: " f.salt
    let nonce ← decodeBase64 lib "Nonce decode failed: " f.nonce
    let ciphertext ← decodeBase64 lib "Ciphertext decode failed: " f.ciphertext
    let derived ← orError "Key derivation failed: " (lib.hashPassword masterKey salt)
    pure (nonce, ciphertext, derived)
  decryptEntries lib derived nonce ciphertext

end Files

section Operations

def fail {α : Type} (e : ExtensionError) : EStateM Stop World α := throw (.failed e)

def orStop {α : Type} (x : Except Stop α) : EStateM Stop World α :=
  match x with
  | .ok a => pure a
  | .error e => throw e

def orFail {α : Type} (x : Except ExtensionError α) : EStateM Stop World α :=
  orStop (x.mapError .failed)

def setVault (f : CredentialVault → CredentialVault) : EStateM Stop World Unit :=
  update fun w => { w with vault := f w.vault }

def resolveMasterKey : EStateM Stop World Key := do
  orFail (resolveKey lib env (← get))

def writeVault (bytes : Bytes) : EStateM Stop World Unit :=
  match env.vaultWrite with
  | .done => update fun w => { w with file := some bytes }
  | .failed left => do
    update fun w => { w with file := left <|> w.file }
    fail (.io .other)

def save (masterKey : Key) : EStateM Stop World Unit := do
  let output ← orFail (sealVault lib env masterKey (← read fun w => w.vault.entries))
  match env.vaultDir with
  | some e => fail (.io e)
  | none => writeVault env output

def load (masterKey : Key) : EStateM Stop World Unit := do
  match ← read World.file with
  | none => fail (.io .notFound)
  | some raw =>
    if env.unreadable then fail (.io .other)
    else
      let secrets ← orStop (openVault lib masterKey raw)
      setVault fun v => { v with entries := secrets }

def initKey : EStateM Stop World Key := do
  match existingKey env (← read World.keyring) with
  | some text => orFail (decodeMasterKey lib text)
  | none =>
    let text := Base64.encode env.fresh.val
    update fun w => { w with keyring := storeKeyringKey env text w.keyring }
    pure env.fresh

/-- The end of `init` and of `init_with_key`. -/
def create (masterKey : Key) : EStateM Stop World Unit := do
  setVault fun v => { v with entries := ∅, unlocked := true }
  save lib env masterKey
  setVault fun v => { v with cachedKey := some masterKey }

def existsText : Str := "Vault already exists. Delete it first to re-initialize.".toList

def missingText : Str := "Vault not initialized. Run \x60clawreform vault init\x60.".toList

def init : EStateM Stop World Unit := do
  if (← read World.file).isSome then fail (.vault existsText)
  else create lib env (← initKey lib env)

def initWithKey (masterKey : Key) : EStateM Stop World Unit := do
  if (← read World.file).isSome then fail (.vault existsText)
  else create lib env masterKey

/-- The end of `unlock` and of `unlock_with_key`. -/
def loadWith (masterKey : Key) : EStateM Stop World Unit := do
  load lib env masterKey
  setVault fun v => { v with unlocked := true, cachedKey := some masterKey }

def unlock : EStateM Stop World Unit := do
  if ← read fun w => w.vault.unlocked then pure ()
  else if (← read World.file).isNone then fail (.vault missingText)
  else loadWith lib env (← resolveMasterKey lib env)

def unlockWithKey (masterKey : Key) : EStateM Stop World Unit := do
  if ← read fun w => w.vault.unlocked then pure ()
  else if (← read World.file).isNone then fail (.vault missingText)
  else loadWith lib env masterKey

def set (key value : Str) : EStateM Stop World Unit := do
  if ← read fun w => w.vault.unlocked then
    setVault fun v => { v with entries := v.entries.insert key value }
    save lib env (← resolveMasterKey lib env)
  else fail .vaultLocked

def remove (key : Str) : EStateM Stop World Bool := do
  if ← read fun w => w.vault.unlocked then
    if ← read fun w => (w.vault.entries.lookup key).isSome then
      setVault fun v => { v with entries := v.entries.erase key }
      save lib env (← resolveMasterKey lib env)
      pure true
    else pure false
  else fail .vaultLocked

end Operations

section Sealing

/-- What is documented of the libraries: a decrypted text is the one that was encrypted, and JSON
texts are read as what was written. -/
structure Libraries.Correct : Prop where
  decrypts : ∀ {key nonce plaintext ciphertext}, lib.encrypt key nonce plaintext = .ok ciphertext →
    lib.decrypt key nonce ciphertext = .ok plaintext
  parsesFile : ∀ f, lib.parseFile (fileJson f) = .ok f
  parsesEntries : ∀ entries, ∃ secrets, lib.parseEntries (entriesJson entries) = .ok secrets ∧
    ∀ key, secrets.lookup key = entries.lookup key

/-- Different master keys give different keys, and what was encrypted with one of these is not
decrypted with another. -/
structure Libraries.Secure : Prop where
  derives : ∀ {masterKey masterKey' salt derived}, lib.hashPassword masterKey salt = .ok derived →
    lib.hashPassword masterKey' salt = .ok derived → masterKey = masterKey'
  authentic : ∀ {key key' nonce plaintext plaintext' ciphertext},
    lib.encrypt key nonce plaintext = .ok ciphertext →
      lib.decrypt key' nonce ciphertext = .ok plaintext' → key' = key

/-- The entries come out of what was read. -/
def Opens (masterKey : Key) (raw : Bytes) (entries : Entries) : Prop :=
  ∃ secrets, openVault lib masterKey raw = .ok secrets ∧
    ∀ key, secrets.lookup key = entries.lookup key

/-- The libraries do not refuse to encrypt the entries. -/
def Encrypts (masterKey : Key) (entries : Entries) : Prop :=
  ∃ derived ciphertext, lib.hashPassword masterKey env.salt.val = .ok derived ∧
    lib.encrypt derived env.nonce.val (entriesJson entries) = .ok ciphertext

variable {lib env} {masterKey : Key} {entries : Entries} {raw : Bytes}

@[simp] theorem orError_ok {α : Type} (text : String) (a : α) :
    orError text (.ok a) = .ok a := rfl

@[simp] theorem decodeBase64_encode (text : String) (bytes : Bytes) :
    decodeBase64 lib text (Base64.encode bytes) = .ok bytes := by
  simp [decodeBase64]

theorem contentOf_magic (content : Str) :
    contentOf lib (vaultMagic ++ encode content) = .ok content := by
  rw [contentOf, if_pos (List.prefix_append _ _), List.drop_left]
  simp

/-- What is saved, when the libraries agree. -/
theorem sealVault_eq {derived : Key} {ciphertext : Bytes}
    (hderived : lib.hashPassword masterKey env.salt.val = .ok derived)
    (hcipher : lib.encrypt derived env.nonce.val (entriesJson entries) = .ok ciphertext) :
    sealVault lib env masterKey entries = .ok (vaultMagic ++ encode (fileJson
      ⟨1, Base64.encode env.salt.val, Base64.encode env.nonce.val, Base64.encode ciphertext⟩)) := by
  simp [sealVault, hderived, hcipher, bind, Except.bind]

theorem exists_sealVault : (∃ raw, sealVault lib env masterKey entries = .ok raw) ↔
    Encrypts lib env masterKey entries := by
  cases hderived : lib.hashPassword masterKey env.salt.val with
  | error e => simp [sealVault, Encrypts, hderived, orError, vaultError, bind, Except.bind]
  | ok derived =>
    cases hcipher : lib.encrypt derived env.nonce.val (entriesJson entries) with
    | error e =>
      simp [sealVault, Encrypts, hderived, hcipher, orError, vaultError, bind, Except.bind]
    | ok ciphertext => simp [Encrypts, hderived, hcipher, sealVault_eq hderived hcipher]

/-- The parts that were saved are found again. -/
theorem openVault_saved (hlib : lib.Correct) (masterKey : Key) (ciphertext : Bytes) :
    openVault lib masterKey (vaultMagic ++ encode (fileJson
      ⟨1, Base64.encode env.salt.val, Base64.encode env.nonce.val, Base64.encode ciphertext⟩)) =
    (orError "Key derivation failed: " (lib.hashPassword masterKey env.salt.val)).mapError
      .failed >>= fun derived => decryptEntries lib derived env.nonce.val ciphertext := by
  have hfile := hlib.parsesFile ⟨1, Base64.encode env.salt.val, Base64.encode env.nonce.val,
    Base64.encode ciphertext⟩
  cases hderived : lib.hashPassword masterKey env.salt.val <;>
    simp [openVault, readFile, contentOf_magic, hfile, hderived, bind, Except.bind,
      Except.mapError, pure, Except.pure, orError, vaultError]

/-- What was saved with a key is loaded with it. -/
theorem opens_sealVault (hlib : lib.Correct)
    (h : sealVault lib env masterKey entries = .ok raw) : Opens lib masterKey raw entries := by
  obtain ⟨derived, ciphertext, hderived, hcipher⟩ := exists_sealVault.mp ⟨raw, h⟩
  obtain ⟨secrets, hparse, hsecrets⟩ := hlib.parsesEntries entries
  rw [sealVault_eq hderived hcipher] at h
  obtain rfl := Except.ok.inj h
  refine ⟨secrets, ?_, hsecrets⟩
  rw [openVault_saved hlib, hderived]
  show decryptEntries lib derived env.nonce.val ciphertext = _
  rw [decryptEntries, if_pos env.nonce.property, hlib.decrypts hcipher]
  show (orError _ (lib.parseEntries (entriesJson entries))).mapError Stop.failed = _
  rw [hparse]
  rfl

/-- What was saved with a key is not loaded with another. -/
theorem key_of_openVault (hlib : lib.Correct) (hsecure : lib.Secure)
    (h : sealVault lib env masterKey entries = .ok raw) {masterKey' : Key} {secrets : Entries}
    (hopen : openVault lib masterKey' raw = .ok secrets) : masterKey' = masterKey := by
  obtain ⟨derived, ciphertext, hderived, hcipher⟩ := exists_sealVault.mp ⟨raw, h⟩
  rw [sealVault_eq hderived hcipher] at h
  obtain rfl := Except.ok.inj h
  rw [openVault_saved hlib] at hopen
  cases hderived' : lib.hashPassword masterKey' env.salt.val with
  | error e =>
    rw [hderived'] at hopen
    cases hopen
  | ok derived' =>
    rw [hderived'] at hopen
    change decryptEntries lib derived' env.nonce.val ciphertext = .ok secrets at hopen
    rw [decryptEntries, if_pos env.nonce.property] at hopen
    cases hplain : lib.decrypt derived' env.nonce.val ciphertext with
    | error e =>
      rw [hplain] at hopen
      cases hopen
    | ok plaintext =>
      obtain rfl := hsecure.authentic hcipher hplain
      exact hsecure.derives hderived' hderived

end Sealing

section Keyring

variable {env : Surroundings}

theorem xorMask_xorMask (bytes : Bytes) : xorMask env (xorMask env bytes) = bytes := by
  apply List.ext_getElem
  · simp [xorMask]
  · intro i hi hi'
    simp only [xorMask, List.getElem_mapIdx, UInt8.xor_assoc, UInt8.xor_self, UInt8.xor_zero]

/-- What was stored in the keyring is loaded. -/
theorem loadKeyringKey_storeKeyringKey (hread : env.keyringUnreadable = false)
    (hdir : env.keyringDir = none) (hwrite : env.keyringWrite = .done) (text : Str)
    (keyring : Option Bytes) :
    loadKeyringKey env (storeKeyringKey env text keyring) = some text := by
  simp [storeKeyringKey, hdir, hwrite, loadKeyringKey, hread, Base64.trim_encode, xorMask_xorMask]

end Keyring

section Examples

open JsonReading (printable printableFields)

theorem printableFields_strings (fields : List ((_ : Str) × Str)) :
    printableFields (fields.map fun e => (e.1, Value.string e.2)) = true := by
  induction fields with
  | nil => rfl
  | cons e fields ih => simpa [printableFields, printable] using ih

theorem entriesJson_injective : Function.Injective entriesJson := by
  intro entries entries' h
  have hprintable (entries : Entries) : printable (.object [("secrets".toList,
      .object (entries.entries.map fun e => (e.1, Value.string e.2)))]) = true := by
    simp [printable, printableFields, printableFields_strings]
  have hvalue := JsonReading.toText_injective (hprintable entries) (hprintable entries')
    (encode_injective h)
  simp only [Value.object.injEq, List.cons.injEq, Prod.mk.injEq, true_and, and_true] at hvalue
  apply AList.ext
  apply List.map_injective_iff.mpr _ hvalue
  intro e e' he
  simp only [Prod.mk.injEq, Value.string.injEq] at he
  exact Sigma.ext he.1 (heq_of_eq he.2)

theorem parts_inj {a b c d e number number' : Str} {salt salt' nonce nonce' text text' : Str}
    (hnumber : number.all JsonReading.numberChar) (hnumber' : number'.all JsonReading.numberChar)
    (hb : ∀ s, JsonReading.Stops (b ++ s))
    (h : a ++ number ++ b ++ Value.quote salt ++ c ++ Value.quote nonce ++ d ++ Value.quote text ++
      e = a ++ number' ++ b ++ Value.quote salt' ++ c ++ Value.quote nonce' ++ d ++
        Value.quote text' ++ e) :
    number = number' ∧ salt = salt' ∧ nonce = nonce' ∧ text = text' := by
  simp only [List.append_assoc, List.append_cancel_left_eq] at h
  obtain ⟨hversion, h⟩ := JsonReading.numberText_inj hnumber hnumber' (hb _) (hb _) h
  obtain ⟨hsalt, h⟩ := JsonReading.quote_inj (List.append_cancel_left h)
  obtain ⟨hnonce, h⟩ := JsonReading.quote_inj (List.append_cancel_left h)
  obtain ⟨htext, -⟩ := JsonReading.quote_inj (List.append_cancel_left h)
  exact ⟨hversion, hsalt, hnonce, htext⟩

theorem fileJson_injective : Function.Injective fileJson := by
  intro f f' h
  have hnumber (f : VaultFile) : (showNat f.version.toNat).all JsonReading.numberChar := by
    have htext := SerdeJson.numberText_showNat f.version.toNat
    simp only [JsonReading.numberText, Bool.and_eq_true] at htext
    exact htext.2
  have hstops (s : Str) : JsonReading.Stops (",\n  \"salt\": ".toList ++ s) := by
    intro c hc
    obtain rfl : ',' = c := Option.some.inj hc
    decide
  unfold fileJson at h
  obtain ⟨hversion, hsalt, hnonce, hciphertext⟩ := parts_inj (hnumber f) (hnumber f') hstops h
  obtain ⟨version, salt, nonce, ciphertext⟩ := f
  obtain ⟨version', salt', nonce', ciphertext'⟩ := f'
  obtain rfl : version = version' := UInt8.toNat_inj.mp (SerdeJson.showNat_inj hversion)
  obtain rfl : salt = salt' := hsalt
  obtain rfl : nonce = nonce' := hnonce
  obtain rfl : ciphertext = ciphertext' := hciphertext
  rfl

open Classical in
/-- Libraries that put the key in front of what they encrypt, and read what was written. -/
noncomputable def plainLibraries : Libraries where
  hashPassword masterKey _ := .ok masterKey
  encrypt key _ plaintext := .ok (key.val ++ plaintext)
  decrypt key _ ciphertext :=
    if key.val <+: ciphertext then .ok (ciphertext.drop 32) else .error "aead::Error".toList
  parseFile text := if h : ∃ f, fileJson f = text then .ok h.choose else .error []
  parseEntries bytes :=
    if h : ∃ entries, entriesJson entries = bytes then .ok h.choose else .error []
  decodeError _ := []
  utf8Error _ := []

theorem plainLibraries_correct : plainLibraries.Correct where
  decrypts {key nonce plaintext ciphertext} h := by
    have hsealed : ciphertext = key.val ++ plaintext := (Except.ok.inj h).symm
    have hdrop : (key.val ++ plaintext).drop 32 = plaintext := List.drop_left' key.property
    have hplain : plainLibraries.decrypt key nonce ciphertext = if key.val <+: ciphertext then
      .ok (ciphertext.drop 32) else .error "aead::Error".toList := rfl
    rw [hplain, hsealed, if_pos (List.prefix_append _ _), hdrop]
  parsesFile f := by
    have h : ∃ f', fileJson f' = fileJson f := ⟨f, rfl⟩
    exact (dif_pos h).trans (congrArg Except.ok (fileJson_injective h.choose_spec))
  parsesEntries entries := by
    have h : ∃ entries', entriesJson entries' = entriesJson entries := ⟨entries, rfl⟩
    refine ⟨h.choose, dif_pos h, fun key => ?_⟩
    rw [entriesJson_injective h.choose_spec]

theorem plainLibraries_secure : plainLibraries.Secure where
  derives h h' := Except.ok.inj (h.trans h'.symm)
  authentic {key key' nonce plaintext plaintext' ciphertext} h h' := by
    have hsealed : ciphertext = key.val ++ plaintext := (Except.ok.inj h).symm
    have hlength : key'.val.length = key.val.length := key'.property.trans key.property.symm
    have hplain : plainLibraries.decrypt key' nonce ciphertext = if key'.val <+: ciphertext then
      .ok (ciphertext.drop 32) else .error "aead::Error".toList := rfl
    rw [hplain] at h'
    by_cases hbegin : key'.val <+: ciphertext
    · rw [hsealed] at hbegin
      have hkeys : key'.val <+: key.val :=
        List.prefix_of_prefix_length_le hbegin (List.prefix_append _ _) hlength.le
      exact Subtype.ext (hkeys.eq_of_length hlength)
    · rw [if_neg hbegin] at h'
      cases h'

end Examples

end Clawreform.Extensions.Vault
