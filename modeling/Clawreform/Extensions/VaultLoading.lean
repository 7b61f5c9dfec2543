import Clawreform.Extensions.VaultKeys

namespace Clawreform.Extensions.Vault

open Clawreform.Lib Clawreform.Lib.Text Clawreform.Lib.Program Clawreform.Lib.Utf8

section Loading

variable (lib : Libraries) (env : Surroundings)

/-- The parts of a file that is decrypted next: the derived key, the nonce and the ciphertext. -/
def Decoded (masterKey : Key) (raw : Bytes) (derived : Key) (nonce ciphertext : Bytes) : Prop :=
  ∃ f salt, readFile lib raw = .ok f ∧ Base64.decode f.salt = some salt ∧
    Base64.decode f.nonce = some nonce ∧ Base64.decode f.ciphertext = some ciphertext ∧
    lib.hashPassword masterKey salt = .ok derived

/-- All goes well up to the nonce, and this one has another length. -/
def WrongNonce (w : World) : Prop :=
  w.vault.unlocked = false ∧ env.unreadable = false ∧ ∃ raw masterKey derived nonce ciphertext,
    w.file = some raw ∧ resolveKey lib env w = .ok masterKey ∧
    Decoded lib masterKey raw derived nonce ciphertext ∧ nonce.length ≠ 12

/-- There is an answer, and a vault that is not opened stays as it was. -/
def AnswersOrStays (w : World) : Prop :=
  (outcome (unlock lib env w)).2 ≠ .error .panicked ∧
    ∀ stop, (outcome (unlock lib env w)).2 = .error stop →
      (outcome (unlock lib env w)).1.vault = w.vault ∧ w.vault.unlocked = false

variable {lib env} {w : World} {masterKey derived : Key} {raw nonce ciphertext : Bytes}

theorem bind_eq_ok {ε α β : Type} {x : Except ε α} {f : α → Except ε β} {b : β} :
    (x >>= f) = .ok b ↔ ∃ a, x = .ok a ∧ f a = .ok b := by
  cases x with
  | ok a => exact ⟨fun h => ⟨a, rfl, h⟩, fun ⟨_, ha, h⟩ => Except.ok.inj ha ▸ h⟩
  | error e => exact ⟨nofun, fun ⟨_, ha, _⟩ => nomatch ha⟩

theorem orError_eq_ok {α : Type} {text : String} {x : Except Str α} {a : α} :
    orError text x = .ok a ↔ x = .ok a := by
  cases x <;> simp [orError, vaultError]

theorem decodeBase64_eq_ok {text : String} {s : Str} {bytes : Bytes} :
    decodeBase64 lib text s = .ok bytes ↔ Base64.decode s = some bytes := by
  rw [decodeBase64, orError_eq_ok]
  cases Base64.decode s <;> simp

/-- What is done of a file before it is decrypted. -/
def decodeParts (lib : Libraries) (masterKey : Key) (raw : Bytes) :
    Except ExtensionError (Bytes × Bytes × Key) := do
  let f ← readFile lib raw
  let salt ← decodeBase64 lib "Salt decode failed: " f.salt
  let nonce ← decodeBase64 lib "Nonce decode failed: " f.nonce
  let ciphertext ← decodeBase64 lib "Ciphertext decode failed: " f.ciphertext
  let derived ← orError "Key derivation failed: " (lib.hashPassword masterKey salt)
  pure (nonce, ciphertext, derived)

theorem decodeParts_eq_ok : decodeParts lib masterKey raw = .ok (nonce, ciphertext, derived) ↔
    Decoded lib masterKey raw derived nonce ciphertext := by
  simp only [decodeParts, bind_eq_ok, decodeBase64_eq_ok, orError_eq_ok, pure, Except.pure,
    Except.ok.injEq, Prod.mk.injEq, Decoded]
  constructor
  · rintro ⟨f, hf, salt, hsalt, _, hnonce, _, hcipher, _, hderived, rfl, rfl, rfl⟩
    exact ⟨f, salt, hf, hsalt, hnonce, hcipher, hderived⟩
  · rintro ⟨f, salt, hf, hsalt, hnonce, hcipher, hderived⟩
    exact ⟨f, hf, salt, hsalt, _, hnonce, _, hcipher, _, hderived, rfl, rfl, rfl⟩

theorem decryptEntries_panics :
    decryptEntries lib derived nonce ciphertext = .error .panicked ↔ nonce.length ≠ 12 := by
  rw [decryptEntries]
  split
  · rename_i hlength
    simp only [hlength, ne_eq, not_true_eq_false, iff_false]
    cases lib.decrypt derived nonce ciphertext with
    | error e =>
      intro h
      cases h
    | ok plaintext =>
      show (orError _ (lib.parseEntries plaintext)).mapError Stop.failed ≠ _
      intro h
      cases hparse : lib.parseEntries plaintext <;> rw [hparse] at h <;> cases h
  · rename_i hlength
    simp [hlength]

/-- Opening a file panics on a nonce of another length, and only then. -/
theorem openVault_panics : openVault lib masterKey raw = .error .panicked ↔
    ∃ derived nonce ciphertext, Decoded lib masterKey raw derived nonce ciphertext ∧
      nonce.length ≠ 12 := by
  have hopen : openVault lib masterKey raw = (decodeParts lib masterKey raw).mapError .failed >>=
      fun parts => decryptEntries lib parts.2.2 parts.1 parts.2.1 := rfl
  rw [hopen]
  cases hparts : decodeParts lib masterKey raw with
  | error e =>
    refine ⟨nofun, ?_⟩
    rintro ⟨derived, nonce, ciphertext, hdecoded, -⟩
    rw [decodeParts_eq_ok.mpr hdecoded] at hparts
    cases hparts
  | ok parts =>
    obtain ⟨nonce, ciphertext, derived⟩ := parts
    refine decryptEntries_panics.trans ⟨fun hlength => ?_, ?_⟩
    · exact ⟨derived, nonce, ciphertext, decodeParts_eq_ok.mp hparts, hlength⟩
    · rintro ⟨derived', nonce', ciphertext', hdecoded, hlength⟩
      rw [decodeParts_eq_ok.mpr hdecoded] at hparts
      cases hparts
      exact hlength

theorem loadWith_cases (lib : Libraries) (env : Surroundings) (masterKey : Key)
    (hfile : w.file = some raw) (hread : env.unreadable = false) :
    (∃ w', loadWith lib env masterKey w = .ok () w') ∨
      ∃ stop, loadWith lib env masterKey w = .error stop w ∧
        openVault lib masterKey raw = .error stop := by
  cases hopen : openVault lib masterKey raw with
  | ok secrets => exact .inl ⟨_, loadWith_of_ok hfile hread hopen⟩
  | error stop => exact .inr ⟨stop, loadWith_of_error hfile hread hopen, rfl⟩

theorem loadWith_unreadable (lib : Libraries) (masterKey : Key) (hfile : w.file = some raw)
    (hread : env.unreadable = true) :
    loadWith lib env masterKey w = .error (.failed (.io .other)) w := by
  have hload : load lib env masterKey w = .error (.failed (.io .other)) w := by
    rw [load, read_bind, hfile]
    simp only [hread]
    rfl
  rw [loadWith, bind_of_error hload]

/-- An error that leaves a locked vault as it is. -/
theorem answersOrStays_of_failed {e : ExtensionError} (hlocked : w.vault.unlocked = false)
    (h : unlock lib env w = .error (.failed e) w) : AnswersOrStays lib env w := by
  rw [AnswersOrStays, h]
  exact ⟨nofun, fun _ _ => ⟨rfl, hlocked⟩⟩

theorem answersOrStays_of_ok {w' : World} (h : unlock lib env w = .ok () w') :
    AnswersOrStays lib env w := by
  rw [AnswersOrStays, h]
  exact ⟨nofun, nofun⟩

theorem unlock_of_key (hlocked : w.vault.unlocked = false) (hfile : w.file = some raw)
    (hkey : resolveKey lib env w = .ok masterKey) :
    unlock lib env w = loadWith lib env masterKey w := by
  rw [unlock_of_file hlocked hfile, bind_of_ok (resolveMasterKey_of_ok hkey)]

theorem unlock_panics (h : WrongNonce lib env w) :
    unlock lib env w = .error .panicked w := by
  obtain ⟨hlocked, hread, raw, masterKey, derived, nonce, ciphertext, hfile, hkey, hdecoded⟩ := h
  rw [unlock_of_key hlocked hfile hkey]
  exact loadWith_of_error hfile hread (openVault_panics.mpr ⟨derived, nonce, ciphertext, hdecoded⟩)

theorem not_answersOrStays (h : WrongNonce lib env w) : ¬ AnswersOrStays lib env w := by
  rw [AnswersOrStays, unlock_panics h]
  exact fun hanswers => hanswers.1 rfl

/-- A file that is there and is read. -/
theorem answersOrStays_of_file (hlocked : w.vault.unlocked = false) (hfile : w.file = some raw)
    (hread : env.unreadable = false) (hkey : resolveKey lib env w = .ok masterKey)
    (h : ¬ WrongNonce lib env w) : AnswersOrStays lib env w := by
  have hunlock := unlock_of_key hlocked hfile hkey
  obtain ⟨w', hload⟩ | ⟨stop, hload, hopen⟩ := loadWith_cases lib env masterKey hfile hread
  · exact answersOrStays_of_ok (hunlock.trans hload)
  · cases stop with
    | failed e => exact answersOrStays_of_failed hlocked (hunlock.trans hload)
    | panicked =>
      obtain ⟨derived, nonce, ciphertext, hdecoded⟩ := openVault_panics.mp hopen
      exact absurd ⟨hlocked, hread, raw, masterKey, derived, nonce, ciphertext, hfile, hkey,
        hdecoded⟩ h

/-- Unlocking answers unless the nonce of the file has another length. -/
theorem unlock_answers_iff (lib : Libraries) (env : Surroundings) (w : World) :
    AnswersOrStays lib env w ↔ ¬ WrongNonce lib env w := by
  refine ⟨fun h hwrong => not_answersOrStays hwrong h, fun h => ?_⟩
  cases hlocked : w.vault.unlocked with
  | true =>
    have hok : unlock lib env w = .ok () w := by
      rw [unlock, read_bind, hlocked, if_pos rfl]
      rfl
    exact answersOrStays_of_ok hok
  | false =>
    cases hfile : w.file with
    | none =>
      have hmissing : unlock lib env w = .error (.failed (.vault missingText)) w := by
        rw [unlock, read_bind, hlocked, if_neg Bool.false_ne_true, read_bind, hfile]
        rfl
      exact answersOrStays_of_failed hlocked hmissing
    | some raw =>
      cases hkey : resolveKey lib env w with
      | error e =>
        have hfailed : unlock lib env w = .error (.failed e) w := by
          rw [unlock_of_file hlocked hfile, bind_of_error (resolveMasterKey_of_error hkey)]
        exact answersOrStays_of_failed hlocked hfailed
      | ok masterKey =>
        cases hread : env.unreadable with
        | true =>
          have hfailed := (unlock_of_key hlocked hfile hkey).trans
            (loadWith_unreadable lib masterKey hfile hread)
          exact answersOrStays_of_failed hlocked hfailed
        | false => exact answersOrStays_of_file hlocked hfile hread hkey h

/-- A file whose nonce has lost a byte. -/
def shortNonce : VaultFile :=
  ⟨1, Base64.encode (List.replicate 16 1), Base64.encode (List.replicate 11 2), Base64.encode [3]⟩

def shortNonceFile : Bytes := vaultMagic ++ encode (fileJson shortNonce)

def keySurroundings : Surroundings :=
  { plainSurroundings with envKey := some (Base64.encode (sampleKey 7).val) }

theorem readFile_shortNonce : readFile plainLibraries shortNonceFile = .ok shortNonce := by
  rw [readFile, shortNonceFile, contentOf_magic]
  show (orError _ (plainLibraries.parseFile (fileJson shortNonce)) >>= _) = _
  rw [plainLibraries_correct.parsesFile]
  rfl

/-- Unlocking panics on it. -/
theorem unlock_not_total :
    ¬ ∀ (lib : Libraries) (env : Surroundings) (file : Bytes),
      AnswersOrStays lib env (start (some file) none) := by
  intro h
  have hkey : resolveKey plainLibraries keySurroundings (start (some shortNonceFile) none) =
      .ok (sampleKey 7) := decodeMasterKey_encode plainLibraries (sampleKey 7)
  have hdecoded : Decoded plainLibraries (sampleKey 7) shortNonceFile (sampleKey 7)
      (List.replicate 11 2) [3] :=
    ⟨shortNonce, List.replicate 16 1, readFile_shortNonce, Base64.decode_encode _,
      Base64.decode_encode _, Base64.decode_encode _, rfl⟩
  refine not_answersOrStays ?_ (h plainLibraries keySurroundings shortNonceFile)
  exact ⟨rfl, rfl, shortNonceFile, sampleKey 7, sampleKey 7, _, _, rfl, hkey, hdecoded, by simp⟩

end Loading

end Clawreform.Extensions.Vault
