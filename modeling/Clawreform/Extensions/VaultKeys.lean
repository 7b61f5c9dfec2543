import Clawreform.Extensions.VaultRuns

namespace Clawreform.Extensions.Vault

open Clawreform.Lib Clawreform.Lib.Text Clawreform.Lib.Store Clawreform.Lib.Program

section Unlocking

variable (lib : Libraries) (env : Surroundings)

/-- The key of a vault is stored in the environment variable or in the keyring. -/
def Stored (w : World) : Prop :=
  ∃ masterKey text, w.vault.cachedKey = some masterKey ∧
    decodeMasterKey lib text = .ok masterKey ∧
      (env.envKey = some text ∨ loadKeyringKey env w.keyring = some text)

/-- A new vault on the same file unlocks, and has the same entries. -/
def Unlocks (w : World) : Prop :=
  ∃ w', unlock lib env (start w.file w.keyring) = .ok () w' ∧
    ∀ key, w'.vault.entries.lookup key = w.vault.entries.lookup key

/-- Where both hold a key, the environment variable and the keyring hold the same one. -/
def SameKeys (keyring : Option Bytes) : Prop :=
  ∀ text, env.envKey = some text → ∀ text', loadKeyringKey env keyring = some text' →
    decodeMasterKey lib text' = decodeMasterKey lib text

variable {lib env} {w w' : World} {masterKey : Key} {raw : Bytes}

/-- What `init` leaves when it succeeds. -/
theorem init_ok (h : init lib env w = .ok () w') :
    ∃ masterKey raw keyring, KeyFound lib env w.keyring masterKey ∧
      sealVault lib env masterKey ∅ = .ok raw ∧
        w' = ⟨⟨∅, true, some masterKey⟩, some raw, keyring⟩ ∧
          ((existingKey env w.keyring).isSome → keyring = w.keyring) := by
  cases hfile : w.file with
  | some raw =>
    rw [init_of_file hfile] at h
    cases h
  | none =>
    rw [init_of_no_file hfile] at h
    obtain ⟨masterKey, keyring, hkey, hfound, hkeyring⟩ | ⟨e, hkey, -⟩ := initKey_cases lib env w
    · rw [bind_of_ok hkey] at h
      by_cases hsaves : Saves lib env masterKey ∅
      · obtain ⟨raw, hraw, hcreate⟩ := create_of_saves (w := { w with keyring := keyring }) hsaves
        rw [hcreate] at h
        cases h
        exact ⟨masterKey, raw, keyring, (hfound masterKey).mpr rfl, hraw, rfl, hkeyring⟩
      · obtain ⟨e, file, hcreate⟩ := create_of_not_saves (w := { w with keyring := keyring }) hsaves
        rw [hcreate] at h
        cases h
    · rw [bind_of_error hkey] at h
      cases h

/-- A new vault unlocks exactly when it comes to the key the vault was saved with. -/
theorem unlocks_iff_resolveKey (hlib : lib.Correct) (hsecure : lib.Secure)
    (hread : env.unreadable = false) (hseal : sealVault lib env masterKey w.vault.entries = .ok raw)
    (hfile : w.file = some raw) :
    Unlocks lib env w ↔ resolveKey lib env (start w.file w.keyring) = .ok masterKey := by
  have hstart : (start w.file w.keyring).file = some raw := hfile
  have hunlock : unlock lib env (start w.file w.keyring) = _ := unlock_of_file rfl hstart
  cases hkey : resolveKey lib env (start w.file w.keyring) with
  | error e =>
    rw [bind_of_error (resolveMasterKey_of_error hkey)] at hunlock
    simp [Unlocks, hunlock]
  | ok masterKey' =>
    rw [bind_of_ok (resolveMasterKey_of_ok hkey)] at hunlock
    constructor
    · rintro ⟨w', hw', -⟩
      cases hopen : openVault lib masterKey' raw with
      | error stop =>
        rw [hunlock, loadWith_of_error hstart hread hopen] at hw'
        cases hw'
      | ok secrets => rw [key_of_openVault hlib hsecure hseal hopen]
    · intro h
      obtain rfl := Except.ok.inj h
      obtain ⟨secrets, hopen, hsecrets⟩ := opens_sealVault hlib hseal
      rw [loadWith_of_ok hstart hread hopen] at hunlock
      exact ⟨_, hunlock, hsecrets⟩

/-- A vault that was created, and whose key is stored, unlocks exactly when the environment
variable and the keyring do not hold different keys. -/
theorem unlocks_iff (hlib : lib.Correct) (hsecure : lib.Secure) (hread : env.unreadable = false)
    (hinit : init lib env w = .ok () w') (hstored : Stored lib env w') :
    Unlocks lib env w' ↔ SameKeys lib env w.keyring := by
  obtain ⟨masterKey, raw, keyring, hfound, hseal, hw', hkeyring⟩ := init_ok hinit
  obtain ⟨masterKey', text, hcached, hdecode, hwhere⟩ := hstored
  have hfile : w'.file = some raw := by rw [hw']
  have hentries : w'.vault.entries = ∅ := by rw [hw']
  have hring : w'.keyring = keyring := by rw [hw']
  have hkey : w'.vault.cachedKey = some masterKey := by rw [hw']
  obtain rfl : masterKey = masterKey' := Option.some.inj (hkey.symm.trans hcached)
  rw [← hentries] at hseal
  rw [unlocks_iff_resolveKey hlib hsecure hread hseal hfile, hring]
  rw [hring] at hwhere
  cases henv : env.envKey with
  | none =>
    have hload : loadKeyringKey env keyring = some text := by simpa [henv] using hwhere
    refine iff_of_true ?_ fun text' htext => ?_
    · simp only [resolveKey, start, CredentialVault.new, hload, hdecode]
    · rw [henv] at htext
      cases htext
  | some text' =>
    have hexisting : existingKey env w.keyring = some text' := by rw [existingKey, henv]; rfl
    rw [KeyFound, hexisting] at hfound
    obtain rfl : keyring = w.keyring := hkeyring (by rw [hexisting]; rfl)
    simp only [SameKeys, henv, Option.some.injEq, forall_eq']
    cases hload : loadKeyringKey env w.keyring with
    | none => simp [resolveKey, start, CredentialVault.new, hload, henv, hfound]
    | some text'' => simp [resolveKey, start, CredentialVault.new, hload, hfound]

end Unlocking

section Examples

theorem decodeMasterKey_encode (lib : Libraries) (masterKey : Key) :
    decodeMasterKey lib (Base64.encode masterKey.val) = .ok masterKey := by
  rw [decodeMasterKey, decodeBase64_encode]
  exact dif_pos masterKey.property

theorem initKey_of_existing {lib : Libraries} {env : Surroundings} {w : World} {text : Str}
    {masterKey : Key} (hexisting : existingKey env w.keyring = some text)
    (hdecode : decodeMasterKey lib text = .ok masterKey) : initKey lib env w = .ok masterKey w := by
  rw [initKey, read_bind, hexisting]
  dsimp only
  rw [hdecode]
  rfl

theorem resolveKey_of_keyring {lib : Libraries} {env : Surroundings} {w : World} {text : Str}
    (hcached : w.vault.cachedKey = none) (hload : loadKeyringKey env w.keyring = some text) :
    resolveKey lib env w = decodeMasterKey lib text := by
  rw [resolveKey, hcached, hload]

/-- A new vault whose random key goes to the keyring. -/
theorem unlocks_iff_plain : ∃ w', init plainLibraries plainSurroundings (start none none) =
    .ok () w' ∧ (Unlocks plainLibraries plainSurroundings w' ↔
      SameKeys plainLibraries plainSurroundings none) := by
  have hsaves : Saves plainLibraries plainSurroundings plainSurroundings.fresh ∅ :=
    ⟨⟨_, _, rfl, rfl⟩, rfl, rfl⟩
  obtain ⟨raw, -, hcreate⟩ := create_of_saves (w := ⟨.new, none, storeKeyringKey plainSurroundings
    (Base64.encode plainSurroundings.fresh.val) none⟩) hsaves
  have hinit : init plainLibraries plainSurroundings (start none none) = _ := hcreate
  have hload := @loadKeyringKey_storeKeyringKey plainSurroundings rfl rfl rfl
    (Base64.encode plainSurroundings.fresh.val) none
  refine ⟨_, hinit, unlocks_iff plainLibraries_correct plainLibraries_secure rfl hinit ?_⟩
  exact ⟨plainSurroundings.fresh, _, rfl, decodeMasterKey_encode _ _, .inr hload⟩

/-- One key in the environment variable, and another in the keyring. -/
def twoKeys : Surroundings :=
  { plainSurroundings with envKey := some (Base64.encode (sampleKey 1).val) }

def otherKeyring : Option Bytes :=
  storeKeyringKey twoKeys (Base64.encode (sampleKey 2).val) none

theorem twoKeys_locked : ∃ w', init plainLibraries twoKeys (start none otherKeyring) = .ok () w' ∧
    Stored plainLibraries twoKeys w' ∧ ¬ Unlocks plainLibraries twoKeys w' := by
  have hsaves : Saves plainLibraries twoKeys (sampleKey 1) ∅ := ⟨⟨_, _, rfl, rfl⟩, rfl, rfl⟩
  obtain ⟨raw, hseal, hcreate⟩ := create_of_saves (w := start none otherKeyring) hsaves
  have hdecode := decodeMasterKey_encode plainLibraries (sampleKey 1)
  have hkey : initKey plainLibraries twoKeys (start none otherKeyring) =
      .ok (sampleKey 1) (start none otherKeyring) := initKey_of_existing rfl hdecode
  let w' : World := ⟨⟨∅, true, some (sampleKey 1)⟩, some raw, otherKeyring⟩
  refine ⟨w', ?_, ⟨sampleKey 1, _, rfl, hdecode, .inl rfl⟩, ?_⟩
  · rw [init_of_no_file rfl, bind_of_ok hkey, hcreate]
    rfl
  · have hread : twoKeys.unreadable = false := rfl
    have hfile : w'.file = some raw := rfl
    have hiff := unlocks_iff_resolveKey (w := w') plainLibraries_correct plainLibraries_secure
      hread hseal hfile
    have hload : loadKeyringKey twoKeys otherKeyring = some (Base64.encode (sampleKey 2).val) :=
      loadKeyringKey_storeKeyringKey rfl rfl rfl _ _
    have hresolve : resolveKey plainLibraries twoKeys (start w'.file w'.keyring) =
        .ok (sampleKey 2) :=
      (resolveKey_of_keyring rfl hload).trans (decodeMasterKey_encode _ _)
    intro h
    have hsame : sampleKey 2 = sampleKey 1 := Except.ok.inj (hresolve.symm.trans (hiff.mp h))
    exact absurd (congrArg Subtype.val hsame) (by decide)

end Examples

end Clawreform.Extensions.Vault
