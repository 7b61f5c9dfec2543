import Clawreform.Extensions.Vault
import Clawreform.Lib.Run

namespace Clawreform.Extensions.Vault

open Clawreform.Lib Clawreform.Lib.Text Clawreform.Lib.Store Clawreform.Lib.Program
open Clawreform.Lib.Run

section Calls

inductive Operation where
  | init
  | initWithKey (masterKey : Key)
  | unlock
  | unlockWithKey (masterKey : Key)
  | set (key value : Str)
  | remove (key : Str)

structure Call where
  operation : Operation
  env : Surroundings

variable (lib : Libraries)

def perform (c : Call) : EStateM Stop World Unit :=
  match c.operation with
  | .init => init lib c.env
  | .initWithKey masterKey => initWithKey lib c.env masterKey
  | .unlock => unlock lib c.env
  | .unlockWithKey masterKey => unlockWithKey lib c.env masterKey
  | .set key value => set lib c.env key value
  | .remove key => do
    let _ ← remove lib c.env key
    pure ()

/-- The world after an operation, and how the operation ended. -/
def outcome (r : EStateM.Result Stop World Unit) : World × Except Stop Unit :=
  match r with
  | .ok a w => (w, .ok a)
  | .error e w => (w, .error e)

def step (w : World) (c : Call) : World × List (Except Stop Unit) :=
  let p := outcome (perform lib c w)
  (p.1, [p.2])

/-- A new vault for a file that may be there already. -/
def start (file keyring : Option Bytes) : World := ⟨.new, file, keyring⟩

/-- The vault and its file are as before. -/
structure Kept (w w' : World) : Prop where
  entries : ∀ key, w'.vault.entries.lookup key = w.vault.entries.lookup key
  unlocked : w'.vault.unlocked = w.vault.unlocked
  file : w'.file = w.file

/-- A new vault on the same file that is unlocked with the same key has the same entries. -/
def Durable (env : Surroundings) (w : World) : Prop :=
  ∃ masterKey, resolveKey lib env w = .ok masterKey ∧
    ∀ env' : Surroundings, env'.unreadable = false →
      ∃ w', unlockWithKey lib env' masterKey (start w.file w.keyring) = .ok () w' ∧
        ∀ key, w'.vault.entries.lookup key = w.vault.entries.lookup key

def Acceptable (env : Surroundings) (w : World) (p : World × Except Stop Unit) : Prop :=
  match p.2 with
  | .ok _ => Durable lib env p.1
  | .error (.failed _) => Kept w p.1
  | .error .panicked => True

/-- The operation is atomic, and durable if it succeeds. -/
def Sound (w : World) (c : Call) : Prop := Acceptable lib c.env w (outcome (perform lib c w))

end Calls

section Conditions

variable (lib : Libraries) (env : Surroundings)

/-- Neither the libraries nor the disk refuse to save the entries. -/
structure Saves (masterKey : Key) (entries : Entries) : Prop where
  encrypts : Encrypts lib env masterKey entries
  dir : env.vaultDir = none
  write : env.vaultWrite = .done

/-- Nothing is written over the file, or what it held. -/
def KeepsFile (masterKey : Key) (entries : Entries) (file : Option Bytes) : Prop :=
  Encrypts lib env masterKey entries → env.vaultDir = none →
    ∀ left, env.vaultWrite = .failed (some left) → file = some left

/-- The key a new vault gets. -/
def KeyFound (keyring : Option Bytes) (masterKey : Key) : Prop :=
  match existingKey env keyring with
  | some text => decodeMasterKey lib text = .ok masterKey
  | none => masterKey = env.fresh

/-- What was changed in memory is saved. -/
def Careful (w : World) (c : Call) : Prop :=
  match c.operation with
  | .init => w.file = none → ∀ masterKey, KeyFound lib c.env w.keyring masterKey →
    Saves lib c.env masterKey ∅
  | .initWithKey masterKey => w.file = none → Saves lib c.env masterKey ∅
  | .set key value => w.vault.unlocked → ∀ masterKey, resolveKey lib c.env w = .ok masterKey →
    Saves lib c.env masterKey (w.vault.entries.insert key value) ∨
      w.vault.entries.lookup key = some value ∧
        KeepsFile lib c.env masterKey (w.vault.entries.insert key value) w.file
  | .remove key => w.vault.unlocked → (w.vault.entries.lookup key).isSome →
    ∀ masterKey, resolveKey lib c.env w = .ok masterKey →
      Saves lib c.env masterKey (w.vault.entries.erase key)
  | _ => True

end Conditions

section Steps

variable {lib : Libraries} {env : Surroundings} {w : World} {masterKey : Key} {raw : Bytes}

theorem save_of_saves (h : Saves lib env masterKey w.vault.entries) :
    ∃ raw, sealVault lib env masterKey w.vault.entries = .ok raw ∧
      save lib env masterKey w = .ok () { w with file := some raw } := by
  obtain ⟨raw, hraw⟩ := exists_sealVault.mpr h.encrypts
  refine ⟨raw, hraw, ?_⟩
  rw [save, read_bind, hraw, h.dir]
  show writeVault env raw w = _
  rw [writeVault, h.write]
  rfl

theorem save_of_not_saves (h : ¬ Saves lib env masterKey w.vault.entries) :
    ∃ e file, save lib env masterKey w = .error (.failed e) { w with file := file } ∧
      (file = w.file ↔ KeepsFile lib env masterKey w.vault.entries w.file) := by
  by_cases henc : Encrypts lib env masterKey w.vault.entries
  · obtain ⟨raw, hraw⟩ := exists_sealVault.mpr henc
    cases hdir : env.vaultDir with
    | some e =>
      refine ⟨.io e, w.file, ?_, by simp [KeepsFile, hdir]⟩
      rw [save, read_bind, hraw, hdir]
      rfl
    | none =>
      cases hwrite : env.vaultWrite with
      | done => exact absurd ⟨henc, hdir, hwrite⟩ h
      | failed left =>
        refine ⟨.io .other, left <|> w.file, ?_, ?_⟩
        · rw [save, read_bind, hraw, hdir]
          show writeVault env raw w = _
          rw [writeVault, hwrite]
          rfl
        · cases left with
          | none => simp [KeepsFile, hwrite]
          | some left => simp [KeepsFile, hwrite, henc, hdir, eq_comm]
  · cases hraw : sealVault lib env masterKey w.vault.entries with
    | ok raw => exact absurd (exists_sealVault.mp ⟨raw, hraw⟩) henc
    | error e =>
      refine ⟨e, w.file, ?_, by simp [KeepsFile, henc]⟩
      rw [save, read_bind, hraw]
      rfl

theorem create_of_saves (h : Saves lib env masterKey ∅) :
    ∃ raw, sealVault lib env masterKey ∅ = .ok raw ∧
      create lib env masterKey w = .ok () ⟨⟨∅, true, some masterKey⟩, some raw, w.keyring⟩ := by
  obtain ⟨raw, hraw, hsave⟩ := save_of_saves
    (w := ⟨⟨∅, true, w.vault.cachedKey⟩, w.file, w.keyring⟩) h
  refine ⟨raw, hraw, ?_⟩
  show (save lib env masterKey >>= fun _ => setVault fun v =>
    { v with cachedKey := some masterKey }) ⟨⟨∅, true, w.vault.cachedKey⟩, w.file, w.keyring⟩ = _
  rw [bind_of_ok hsave]
  rfl

theorem create_of_not_saves (h : ¬ Saves lib env masterKey ∅) :
    ∃ e file, create lib env masterKey w =
      .error (.failed e) ⟨⟨∅, true, w.vault.cachedKey⟩, file, w.keyring⟩ := by
  obtain ⟨e, file, hsave, -⟩ := save_of_not_saves
    (w := ⟨⟨∅, true, w.vault.cachedKey⟩, w.file, w.keyring⟩) h
  refine ⟨e, file, ?_⟩
  show (save lib env masterKey >>= fun _ => setVault fun v =>
    { v with cachedKey := some masterKey }) ⟨⟨∅, true, w.vault.cachedKey⟩, w.file, w.keyring⟩ = _
  rw [bind_of_error hsave]

theorem load_of_file (hfile : w.file = some raw) (hread : env.unreadable = false) :
    load lib env masterKey w = (orStop (openVault lib masterKey raw) >>=
      fun secrets => setVault fun v => { v with entries := secrets }) w := by
  rw [load, read_bind, hfile]
  simp only [hread]
  rfl

theorem loadWith_of_ok (hfile : w.file = some raw) (hread : env.unreadable = false)
    {secrets : Entries} (h : openVault lib masterKey raw = .ok secrets) :
    loadWith lib env masterKey w =
      .ok () { w with vault := ⟨secrets, true, some masterKey⟩ } := by
  have hload : load lib env masterKey w = _ := load_of_file hfile hread
  rw [h] at hload
  rw [loadWith, bind_of_ok (hload.trans rfl)]
  rfl

theorem loadWith_of_error (hfile : w.file = some raw) (hread : env.unreadable = false)
    {stop : Stop} (h : openVault lib masterKey raw = .error stop) :
    loadWith lib env masterKey w = .error stop w := by
  have hload : load lib env masterKey w = _ := load_of_file hfile hread
  rw [h] at hload
  rw [loadWith, bind_of_error (hload.trans rfl)]

/-- A vault that is locked has no entries, and one that is not has those of its file. -/
structure Settled (lib : Libraries) (w : World) : Prop where
  locked : w.vault.unlocked = false → ∀ key, w.vault.entries.lookup key = none
  unlocked : w.vault.unlocked = true → ∃ masterKey raw, w.vault.cachedKey = some masterKey ∧
    w.file = some raw ∧ Opens lib masterKey raw w.vault.entries

/-- An operation is sound on a condition, which also keeps the invariant. -/
structure Spec (lib : Libraries) (env : Surroundings) (w : World)
    (p : World × Except Stop Unit) (condition : Prop) : Prop where
  acceptable : Acceptable lib env w p ↔ condition
  settled : condition → Settled lib p.1

theorem Spec.congr {p : World × Except Stop Unit} {condition condition' : Prop}
    (h : Spec lib env w p condition) (hcond : condition ↔ condition') :
    Spec lib env w p condition' :=
  ⟨h.acceptable.trans hcond, fun hc => h.settled (hcond.mpr hc)⟩

theorem settled_start (file keyring : Option Bytes) : Settled lib (start file keyring) :=
  ⟨fun _ _ => rfl, fun h => absurd h Bool.false_ne_true⟩

theorem resolveKey_cached (h : w.vault.cachedKey = some masterKey) :
    resolveKey lib env w = .ok masterKey := by
  rw [resolveKey, h]

theorem resolveMasterKey_of_ok (h : resolveKey lib env w = .ok masterKey) :
    resolveMasterKey lib env w = .ok masterKey w := by
  show orFail (resolveKey lib env w) w = _
  rw [h]
  rfl

theorem resolveMasterKey_of_error {e : ExtensionError} (h : resolveKey lib env w = .error e) :
    resolveMasterKey lib env w = .error (.failed e) w := by
  show orFail (resolveKey lib env w) w = _
  rw [h]
  rfl

theorem unlockWithKey_of_file (hlocked : w.vault.unlocked = false) (hfile : w.file = some raw) :
    unlockWithKey lib env masterKey w = loadWith lib env masterKey w := by
  rw [unlockWithKey, read_bind, hlocked, if_neg Bool.false_ne_true, read_bind, hfile]
  rfl

theorem unlock_of_file (hlocked : w.vault.unlocked = false) (hfile : w.file = some raw) :
    unlock lib env w = (resolveMasterKey lib env >>= loadWith lib env) w := by
  rw [unlock, read_bind, hlocked, if_neg Bool.false_ne_true, read_bind, hfile]
  rfl

theorem durable_of_opens (hkey : w.vault.cachedKey = some masterKey) (hfile : w.file = some raw)
    (hopens : Opens lib masterKey raw w.vault.entries) : Durable lib env w := by
  obtain ⟨secrets, hopen, hsecrets⟩ := hopens
  refine ⟨masterKey, resolveKey_cached hkey, fun env' hread => ?_⟩
  have hload := loadWith_of_ok (w := start w.file w.keyring) hfile hread hopen
  rw [← unlockWithKey_of_file (w := start w.file w.keyring) rfl hfile] at hload
  exact ⟨_, hload, hsecrets⟩

/-- An operation that stops in front of every change. -/
theorem spec_unchanged (hw : Settled lib w) (stop : Stop) :
    Spec lib env w (w, .error stop) True := by
  refine ⟨iff_of_true ?_ trivial, fun _ => hw⟩
  cases stop with
  | failed e => exact ⟨fun _ => rfl, rfl, rfl⟩
  | panicked => trivial

/-- An operation that leaves the vault unlocked with the entries of the file. -/
theorem spec_unlocked {w' : World} (hkey : w'.vault.cachedKey = some masterKey)
    (hfile : w'.file = some raw) (hunlocked : w'.vault.unlocked = true)
    (hopens : Opens lib masterKey raw w'.vault.entries) : Spec lib env w (w', .ok ()) True := by
  refine ⟨iff_of_true (durable_of_opens hkey hfile hopens) trivial, fun _ => ?_⟩
  exact ⟨fun h => absurd (h.symm.trans hunlocked) Bool.false_ne_true,
    fun _ => ⟨masterKey, raw, hkey, hfile, hopens⟩⟩

theorem spec_same (hw : Settled lib w) (h : w.vault.unlocked = true) :
    Spec lib env w (w, .ok ()) True := by
  obtain ⟨masterKey, raw, hkey, hfile, hopens⟩ := hw.unlocked h
  exact spec_unlocked hkey hfile h hopens

theorem locked_of_none (hw : Settled lib w) (h : w.file = none) : w.vault.unlocked = false := by
  by_contra hunlocked
  obtain ⟨masterKey, raw, -, hfile, -⟩ := hw.unlocked (Bool.eq_true_of_not_eq_false hunlocked)
  rw [h] at hfile
  cases hfile

/-- A vault is created as a whole, or left unlocked without a file. -/
theorem spec_create (hlib : lib.Correct) (hw : Settled lib w) (hnone : w.file = none)
    (keyring : Option Bytes) : Spec lib env w
      (outcome (create lib env masterKey { w with keyring := keyring }))
      (Saves lib env masterKey ∅) := by
  by_cases hsaves : Saves lib env masterKey ∅
  · obtain ⟨raw, hraw, hcreate⟩ := create_of_saves (w := { w with keyring := keyring }) hsaves
    have hspec : Spec lib env w (⟨⟨∅, true, some masterKey⟩, some raw, keyring⟩, .ok ()) True :=
      spec_unlocked rfl rfl rfl (opens_sealVault hlib hraw)
    rw [hcreate]
    exact hspec.congr (iff_of_true trivial hsaves)
  · obtain ⟨e, file, hcreate⟩ := create_of_not_saves (w := { w with keyring := keyring }) hsaves
    rw [hcreate]
    refine ⟨iff_of_false (fun hkept => ?_) hsaves, fun h => absurd h hsaves⟩
    have hunlocked : true = w.vault.unlocked := Kept.unlocked hkept
    rw [locked_of_none hw hnone] at hunlocked
    cases hunlocked

theorem spec_initWithKey (hlib : lib.Correct) (hw : Settled lib w) :
    Spec lib env w (outcome (initWithKey lib env masterKey w))
      (w.file = none → Saves lib env masterKey ∅) := by
  cases hfile : w.file with
  | none =>
    have hrun : initWithKey lib env masterKey w = create lib env masterKey w := by
      rw [initWithKey, read_bind, hfile]
      rfl
    rw [hrun]
    exact (spec_create hlib hw hfile w.keyring).congr (by simp)
  | some raw =>
    have hrun : initWithKey lib env masterKey w = .error (.failed (.vault existsText)) w := by
      rw [initWithKey, read_bind, hfile]
      rfl
    rw [hrun]
    exact (spec_unchanged hw _).congr (by simp)

/-- The key for a new vault, if one is found, and what becomes of the keyring. -/
theorem initKey_cases (lib : Libraries) (env : Surroundings) (w : World) :
    (∃ masterKey keyring, initKey lib env w = .ok masterKey { w with keyring := keyring } ∧
      (∀ masterKey', KeyFound lib env w.keyring masterKey' ↔ masterKey' = masterKey) ∧
        ((existingKey env w.keyring).isSome → keyring = w.keyring)) ∨
    ∃ e, initKey lib env w = .error (.failed e) w ∧
      ∀ masterKey, ¬ KeyFound lib env w.keyring masterKey := by
  rw [initKey, read_bind]
  cases htext : existingKey env w.keyring with
  | none => exact .inl ⟨env.fresh, _, rfl, by simp [KeyFound, htext], by simp⟩
  | some text =>
    cases hkey : decodeMasterKey lib text with
    | ok masterKey =>
      refine .inl ⟨masterKey, w.keyring, ?_, by simp [KeyFound, htext, hkey, eq_comm], fun _ => rfl⟩
      simp only [hkey]
      rfl
    | error e =>
      refine .inr ⟨e, ?_, by simp [KeyFound, htext, hkey]⟩
      simp only [hkey]
      rfl

theorem init_of_no_file (h : w.file = none) :
    init lib env w = (initKey lib env >>= create lib env) w := by
  rw [init, read_bind, h]
  rfl

theorem init_of_file (h : w.file = some raw) :
    init lib env w = .error (.failed (.vault existsText)) w := by
  rw [init, read_bind, h]
  rfl

theorem spec_init (hlib : lib.Correct) (hw : Settled lib w) :
    Spec lib env w (outcome (init lib env w))
      (w.file = none → ∀ masterKey, KeyFound lib env w.keyring masterKey →
        Saves lib env masterKey ∅) := by
  cases hfile : w.file with
  | none =>
    rw [init_of_no_file hfile]
    obtain ⟨masterKey, keyring, hkey, hfound, -⟩ | ⟨e, hkey, hfound⟩ := initKey_cases lib env w
    · rw [bind_of_ok hkey]
      exact (spec_create hlib hw hfile keyring).congr (by simp [hfound])
    · rw [bind_of_error hkey]
      exact (spec_unchanged hw _).congr (by simp [hfound])
  | some raw =>
    rw [init_of_file hfile]
    exact (spec_unchanged hw _).congr (by simp)

/-- Loading changes the vault as a whole, or not at all. -/
theorem spec_loadWith (hw : Settled lib w) :
    Spec lib env w (outcome (loadWith lib env masterKey w)) True := by
  cases hfile : w.file with
  | none =>
    have hload : load lib env masterKey w = .error (.failed (.io .notFound)) w := by
      rw [load, read_bind, hfile]
      rfl
    rw [loadWith, bind_of_error hload]
    exact spec_unchanged hw _
  | some raw =>
    cases hread : env.unreadable with
    | true =>
      have hload : load lib env masterKey w = .error (.failed (.io .other)) w := by
        rw [load, read_bind, hfile]
        simp only [hread]
        rfl
      rw [loadWith, bind_of_error hload]
      exact spec_unchanged hw _
    | false =>
      cases hopen : openVault lib masterKey raw with
      | error stop =>
        rw [loadWith_of_error hfile hread hopen]
        exact spec_unchanged hw _
      | ok secrets =>
        have hopens : Opens lib masterKey raw secrets := ⟨secrets, hopen, fun _ => rfl⟩
        rw [loadWith_of_ok hfile hread hopen]
        exact spec_unlocked rfl hfile rfl hopens

theorem spec_unlockWithKey (hw : Settled lib w) :
    Spec lib env w (outcome (unlockWithKey lib env masterKey w)) True := by
  cases hunlocked : w.vault.unlocked with
  | true =>
    rw [unlockWithKey, read_bind, hunlocked, if_pos rfl]
    exact spec_same hw hunlocked
  | false =>
    cases hfile : w.file with
    | none =>
      rw [unlockWithKey, read_bind, hunlocked, if_neg Bool.false_ne_true, read_bind, hfile]
      exact spec_unchanged hw _
    | some raw =>
      rw [unlockWithKey_of_file hunlocked hfile]
      exact spec_loadWith hw

theorem spec_unlock (hw : Settled lib w) : Spec lib env w (outcome (unlock lib env w)) True := by
  cases hunlocked : w.vault.unlocked with
  | true =>
    rw [unlock, read_bind, hunlocked, if_pos rfl]
    exact spec_same hw hunlocked
  | false =>
    cases hfile : w.file with
    | none =>
      rw [unlock, read_bind, hunlocked, if_neg Bool.false_ne_true, read_bind, hfile]
      exact spec_unchanged hw _
    | some raw =>
      rw [unlock_of_file hunlocked hfile]
      cases hkey : resolveKey lib env w with
      | error e =>
        rw [bind_of_error (resolveMasterKey_of_error hkey)]
        exact spec_unchanged hw _
      | ok masterKey =>
        rw [bind_of_ok (resolveMasterKey_of_ok hkey)]
        exact spec_loadWith hw

/-- The end of `set` and of `remove`, in a vault whose entries were changed. -/
theorem spec_change (hlib : lib.Correct) (hw : Settled lib w) (hunlocked : w.vault.unlocked = true)
    (entries : Entries) : Spec lib env w
      (outcome ((resolveMasterKey lib env >>= save lib env)
        { w with vault := { w.vault with entries := entries } }))
      (∀ masterKey, resolveKey lib env w = .ok masterKey → Saves lib env masterKey entries ∨
        (∀ key, entries.lookup key = w.vault.entries.lookup key) ∧
          KeepsFile lib env masterKey entries w.file) := by
  obtain ⟨masterKey, raw, hkey, hfile, hopens⟩ := hw.unlocked hunlocked
  let w₁ : World := { w with vault := { w.vault with entries := entries } }
  have hresolve : resolveKey lib env w = .ok masterKey := resolveKey_cached hkey
  have hresolve₁ : resolveMasterKey lib env w₁ = .ok masterKey w₁ :=
    resolveMasterKey_of_ok (resolveKey_cached hkey)
  rw [bind_of_ok hresolve₁]
  by_cases hsaves : Saves lib env masterKey entries
  · obtain ⟨raw', hraw, hsave⟩ := save_of_saves (w := w₁) hsaves
    rw [hsave]
    have hspec : Spec lib env w ({ w₁ with file := some raw' }, .ok ()) True :=
      spec_unlocked hkey rfl hunlocked (opens_sealVault hlib hraw)
    refine hspec.congr (iff_of_true trivial fun masterKey' h => ?_)
    obtain rfl := Except.ok.inj (hresolve.symm.trans h)
    exact .inl hsaves
  · obtain ⟨e, file, hsave, hfileKept⟩ := save_of_not_saves (w := w₁) hsaves
    rw [hsave]
    constructor
    · constructor
      · intro hkept masterKey' h
        obtain rfl := Except.ok.inj (hresolve.symm.trans h)
        exact .inr ⟨Kept.entries hkept, hfileKept.mp (Kept.file hkept)⟩
      · intro h
        obtain ⟨hentries, hkeeps⟩ := (h masterKey hresolve).resolve_left hsaves
        exact ⟨hentries, rfl, hfileKept.mpr hkeeps⟩
    · intro h
      obtain ⟨hentries, hkeeps⟩ := (h masterKey hresolve).resolve_left hsaves
      obtain ⟨secrets, hopen, hsecrets⟩ := hopens
      refine ⟨fun hlocked => absurd (hlocked.symm.trans hunlocked) Bool.false_ne_true, fun _ => ?_⟩
      exact ⟨masterKey, raw, hkey, (hfileKept.mpr hkeeps).trans hfile, secrets, hopen,
        fun key => (hsecrets key).trans (hentries key).symm⟩

theorem spec_set (hlib : lib.Correct) (hw : Settled lib w) (key value : Str) :
    Spec lib env w (outcome (set lib env key value w))
      (w.vault.unlocked → ∀ masterKey, resolveKey lib env w = .ok masterKey →
        Saves lib env masterKey (w.vault.entries.insert key value) ∨
          w.vault.entries.lookup key = some value ∧
            KeepsFile lib env masterKey (w.vault.entries.insert key value) w.file) := by
  rw [set, read_bind]
  cases hunlocked : w.vault.unlocked with
  | false => exact (spec_unchanged hw _).congr (by simp)
  | true =>
    have hsame : (∀ key', (w.vault.entries.insert key value).lookup key' =
        w.vault.entries.lookup key') ↔ w.vault.entries.lookup key = some value := by
      constructor
      · intro h
        rw [← h key, AList.lookup_insert]
      · intro h key'
        rw [lookup_insert]
        by_cases hkey : key' = key
        · rw [if_pos hkey, hkey, h]
        · rw [if_neg hkey]
    refine (spec_change hlib hw hunlocked (w.vault.entries.insert key value)).congr ?_
    rw [hsame]
    simp

theorem remove_present {key : Str} (hunlocked : w.vault.unlocked = true)
    (h : (w.vault.entries.lookup key).isSome) :
    remove lib env key w = ((resolveMasterKey lib env >>= save lib env) >>= fun _ => pure true)
      { w with vault := { w.vault with entries := w.vault.entries.erase key } } := by
  rw [remove, read_bind, hunlocked, if_pos rfl, read_bind, if_pos h, bind_assoc]
  rfl

theorem remove_absent {key : Str} (hunlocked : w.vault.unlocked = true)
    (h : ¬ (w.vault.entries.lookup key).isSome) : remove lib env key w = .ok false w := by
  rw [remove, read_bind, hunlocked, if_pos rfl, read_bind, if_neg h]
  rfl

theorem remove_locked {key : Str} (hlocked : w.vault.unlocked = false) :
    remove lib env key w = .error (.failed .vaultLocked) w := by
  rw [remove, read_bind, hlocked, if_neg Bool.false_ne_true]
  rfl

/-- What an operation answers besides does not matter to how it ends. -/
theorem forget_answer {x : EStateM Stop World Unit} {y : EStateM Stop World Bool} {b : Bool}
    {w' : World} (h : y w = (x >>= fun _ => pure b) w') :
    (y >>= fun _ => pure ()) w = x w' := by
  cases hx : x w' with
  | ok a w'' =>
    rw [bind_of_ok hx] at h
    rw [bind_of_ok (h.trans rfl)]
    rfl
  | error e w'' =>
    rw [bind_of_error hx] at h
    exact bind_of_error h

theorem spec_remove (hlib : lib.Correct) (hw : Settled lib w) (key : Str) :
    Spec lib env w (outcome (perform lib ⟨.remove key, env⟩ w))
      (w.vault.unlocked → (w.vault.entries.lookup key).isSome → ∀ masterKey,
        resolveKey lib env w = .ok masterKey →
          Saves lib env masterKey (w.vault.entries.erase key)) := by
  show Spec lib env w (outcome ((remove lib env key >>= fun _ => pure ()) w)) _
  cases hunlocked : w.vault.unlocked with
  | false =>
    rw [bind_of_error (remove_locked hunlocked)]
    exact (spec_unchanged hw _).congr (by simp)
  | true =>
    by_cases hkey : (w.vault.entries.lookup key).isSome
    · have hchanged : ¬ ∀ key', (w.vault.entries.erase key).lookup key' =
          w.vault.entries.lookup key' := by
        intro h
        rw [← h key, AList.lookup_erase] at hkey
        cases hkey
      rw [forget_answer (remove_present hunlocked hkey)]
      refine (spec_change hlib hw hunlocked (w.vault.entries.erase key)).congr ?_
      simp [hchanged, hkey]
    · rw [bind_of_ok (remove_absent hunlocked hkey)]
      exact (spec_same hw hunlocked).congr (by simp [hkey])

theorem spec_perform (hlib : lib.Correct) (hw : Settled lib w) (c : Call) :
    Spec lib c.env w (outcome (perform lib c w)) (Careful lib w c) := by
  obtain ⟨operation, env⟩ := c
  cases operation with
  | init => exact spec_init hlib hw
  | initWithKey masterKey => exact spec_initWithKey hlib hw
  | unlock => exact spec_unlock hw
  | unlockWithKey masterKey => exact spec_unlockWithKey hw
  | set key value => exact spec_set hlib hw key value
  | remove key => exact spec_remove hlib hw key

/-- The operations of a run are atomic and durable exactly when each of them that changes the
entries or the flag in memory also saves them. -/
theorem atomic_iff (hlib : lib.Correct) (file keyring : Option Bytes) (calls : List Call) :
    Allowed (step lib) (Sound lib) (start file keyring) calls ↔
      Allowed (step lib) (Careful lib) (start file keyring) calls := by
  have hstart : Settled lib (start file keyring) := settled_start file keyring
  constructor
  · apply allowed_of_allowed (step lib) (Settled lib) _ hstart
    intro w c hw hsound
    have hcareful := (spec_perform hlib hw c).acceptable.mp hsound
    exact ⟨hcareful, (spec_perform hlib hw c).settled hcareful⟩
  · apply allowed_of_allowed (step lib) (Settled lib) _ hstart
    intro w c hw hcareful
    exact ⟨(spec_perform hlib hw c).acceptable.mpr hcareful,
      (spec_perform hlib hw c).settled hcareful⟩

end Steps

section Examples

def sampleKey (byte : UInt8) : Key := ⟨List.replicate 32 byte, List.length_replicate⟩

/-- No key in the environment, and a disk that takes what is written. -/
def plainSurroundings : Surroundings where
  envKey := none
  mask := sampleKey 90
  fresh := sampleKey 7
  salt := ⟨List.replicate 16 1, List.length_replicate⟩
  nonce := ⟨List.replicate 12 2, List.length_replicate⟩
  keyringUnreadable := false
  keyringDir := none
  keyringWrite := .done
  unreadable := false
  vaultDir := none
  vaultWrite := .done

/-- A secret is set in a new vault, but the disk refuses to be written. -/
def refusedCalls : List Call :=
  [⟨.init, plainSurroundings⟩,
    ⟨.set "A".toList "1".toList, { plainSurroundings with vaultWrite := .failed none }⟩]

theorem atomic_iff_refusedCalls :
    Allowed (step plainLibraries) (Sound plainLibraries) (start none none) refusedCalls ↔
      Allowed (step plainLibraries) (Careful plainLibraries) (start none none) refusedCalls :=
  atomic_iff plainLibraries_correct none none refusedCalls

/-- The secret stays in memory although `set` failed. -/
theorem refusedCalls_not_atomic :
    ¬ Allowed (step plainLibraries) (Sound plainLibraries) (start none none) refusedCalls := by
  intro h
  obtain ⟨-, hset, -⟩ := h
  have hsaves : Saves plainLibraries plainSurroundings plainSurroundings.fresh ∅ :=
    ⟨⟨_, _, rfl, rfl⟩, rfl, rfl⟩
  have hsettled : Settled plainLibraries
      (step plainLibraries (start none none) ⟨.init, plainSurroundings⟩).1 := by
    apply (spec_perform plainLibraries_correct (settled_start none none) _).settled
    rintro - masterKey rfl
    exact hsaves
  obtain ⟨raw, -, hcreate⟩ := create_of_saves (w := ⟨.new, none, storeKeyringKey plainSurroundings
    (Base64.encode plainSurroundings.fresh.val) none⟩) hsaves
  have hinit : perform plainLibraries ⟨.init, plainSurroundings⟩ (start none none) = _ := hcreate
  have hcareful := (spec_perform plainLibraries_correct hsettled _).acceptable.mp hset
  rw [step, hinit] at hcareful
  obtain hsaves' | ⟨hlookup, -⟩ := hcareful rfl plainSurroundings.fresh rfl
  · exact absurd hsaves'.write (by decide)
  · cases hlookup

end Examples

end Clawreform.Extensions.Vault
