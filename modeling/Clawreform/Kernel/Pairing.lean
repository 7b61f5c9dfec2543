import Clawreform.Lib.Calls
import Clawreform.Kernel.Cron

namespace Clawreform.Kernel

open Clawreform.Lib.Text Clawreform.Lib.Run Clawreform.Lib.Store Clawreform.Lib.Calls
open Clawreform.Types

def maxPendingRequests : Nat := 5

structure PairingConfig where
  enabled : Bool
  maxDevices : Nat
  tokenExpirySecs : UInt64
  deriving DecidableEq

structure PairedDevice where
  deviceId : Str
  displayName : Str
  platform : Str
  pairedAt : DateTime
  lastSeen : DateTime
  pushToken : Option Str
  deriving DecidableEq

structure PairingRequest where
  token : Str
  createdAt : DateTime
  expiresAt : DateTime
  deriving DecidableEq

inductive PersistOp where
  | save
  | remove
  deriving DecidableEq

/-- The maps of the manager, that all calls share. -/
structure PairingMaps where
  pending : Map Str PairingRequest
  devices : Map Str PairedDevice
  deriving DecidableEq

def PairingMaps.new : PairingMaps := ⟨∅, ∅⟩

inductive PairingCall where
  | createPairingRequest
  | completePairing (token : Str) (deviceInfo : PairedDevice)
  | removeDevice (deviceId : Str)
  | cleanExpired
  deriving DecidableEq

inductive PairingAnswer where
  | created (answer : Except Str PairingRequest)
  | completed (answer : Except Str PairedDevice)
  | removed (answer : Except Str Unit)
  | cleaned
  deriving DecidableEq

/-- Where a call stands between two accesses to the maps. -/
inductive PairingPhase where
  | counting
  | cleaning
  | recounting
  | drawing
  | finding (token : Str) (deviceInfo : PairedDevice)
  | checking (request : PairingRequest) (key : Str) (deviceInfo : PairedDevice)
  | expiring (key : Str)
  | limiting (request : PairingRequest) (key : Str) (deviceInfo : PairedDevice)
  | spending (request : PairingRequest) (key : Str) (deviceInfo : PairedDevice)
  | storing (request : PairingRequest) (deviceInfo : PairedDevice)
  | removing (deviceId : Str)
  | sweeping
  | persisting (device : PairedDevice) (op : PersistOp) (answer : PairingAnswer)
  | returned (answer : PairingAnswer)
  | panicked
  deriving DecidableEq

inductive PairingEvent where
  | created (request : PairingRequest)
  | used (id : CallId) (key : Str)
  | paired (id : CallId) (request : PairingRequest) (device : PairedDevice) (now : DateTime)
  | removed (device : PairedDevice)
  | persisted (device : PairedDevice) (op : PersistOp)
  deriving DecidableEq

/-- The clock and the random bytes a step reads. -/
structure PairingEnv where
  now : DateTime
  tokenBytes : Vector UInt8 32

section Steps

def hexEncode (bytes : List UInt8) : Str :=
  bytes.flatMap fun b => [Nat.digitChar (b.toNat / 16), Nat.digitChar (b.toNat % 16)]

def PairingMaps.cleanExpired (now : DateTime) (m : PairingMaps) : PairingMaps :=
  { m with pending := retain (fun _ request => request.expiresAt > now) m.pending }

variable (cfg : PairingConfig) (persists : Bool)

def PairingCall.first : PairingCall → PairingPhase
  | .createPairingRequest =>
    if cfg.enabled then .counting
    else .returned (.created (.error "Device pairing is disabled".toList))
  | .completePairing token deviceInfo => .finding token deviceInfo
  | .removeDevice deviceId => .removing deviceId
  | .cleanExpired => .sweeping

/-- The callback, where one is attached, is called before the answer is given. -/
def thenPersist (device : PairedDevice) (op : PersistOp) (answer : PairingAnswer) : PairingPhase :=
  if persists then .persisting device op answer else .returned answer

def PairingPhase.advance (env : PairingEnv) (id : CallId) (m : PairingMaps) :
    PairingPhase → (PairingMaps × PairingPhase) × List PairingEvent
  | .counting =>
    if size m.pending ≥ maxPendingRequests then ((m, .cleaning), []) else ((m, .drawing), [])
  | .cleaning => ((m.cleanExpired env.now, .recounting), [])
  | .recounting =>
    if size m.pending ≥ maxPendingRequests then
      ((m, .returned (.created (.error
        "Too many pending pairing requests. Try again later.".toList))), [])
    else ((m, .drawing), [])
  | .drawing =>
    let token := hexEncode env.tokenBytes.toList
    match (durationSeconds (asI64 cfg.tokenExpirySecs)).bind (addDuration env.now) with
    | none => ((m, .panicked), [])
    | some expiresAt =>
      let request := ⟨token, env.now, expiresAt⟩
      (({ m with pending := m.pending.insert token request }, .returned (.created (.ok request))),
        [.created request])
  | .finding token deviceInfo =>
    match m.pending.entries.find? fun entry => constantTimeEq entry.2.token token with
    | none =>
      ((m, .returned (.completed (.error "Invalid or expired pairing token".toList))), [])
    | some entry => ((m, .checking entry.2 entry.1 deviceInfo), [])
  | .checking request key deviceInfo =>
    if env.now > request.expiresAt then ((m, .expiring key), [])
    else ((m, .limiting request key deviceInfo), [])
  | .expiring key =>
    (({ m with pending := m.pending.erase key },
      .returned (.completed (.error "Pairing token has expired".toList))), [])
  | .limiting request key deviceInfo =>
    if size m.devices ≥ cfg.maxDevices then
      ((m, .returned (.completed (.error ("Maximum paired devices (".toList ++
        showNat cfg.maxDevices ++ ") reached. Remove a device first.".toList)))), [])
    else ((m, .spending request key deviceInfo), [])
  | .spending request key deviceInfo =>
    -- whether the token was still there is not looked at
    (({ m with pending := m.pending.erase key }, .storing request deviceInfo), [.used id key])
  | .storing request deviceInfo =>
    (({ m with devices := m.devices.insert deviceInfo.deviceId deviceInfo },
      thenPersist persists deviceInfo .save (.completed (.ok deviceInfo))),
      [.paired id request deviceInfo env.now])
  | .removing deviceId =>
    match m.devices.lookup deviceId with
    | none =>
      ((m, .returned (.removed (.error ("Device '".toList ++ deviceId ++ "' not found".toList)))),
        [])
    | some device =>
      (({ m with devices := m.devices.erase deviceId },
        thenPersist persists device .remove (.removed (.ok ()))), [.removed device])
  | .sweeping => ((m.cleanExpired env.now, .returned .cleaned), [])
  | .persisting device op answer => ((m, .returned answer), [.persisted device op])
  | .returned answer => ((m, .returned answer), [])
  | .panicked => ((m, .panicked), [])

def pairing : Machine PairingMaps PairingPhase PairingCall PairingEnv PairingEvent where
  first := PairingCall.first cfg
  advance env id m p := p.advance cfg persists env id m

end Steps

section Safety

def PairingEvent.createdToken : PairingEvent → Option Str
  | .created request => some request.token
  | _ => none

def PairingEvent.usedToken : PairingEvent → Option (CallId × Str)
  | .used id key => some (id, key)
  | _ => none

def PairingEvent.pairedToken : PairingEvent → Option Str
  | .paired _ request _ _ => some request.token
  | _ => none

def createdTokens (past : List PairingEvent) : List Str := past.filterMap (·.createdToken)

def usedTokens (past : List PairingEvent) : List (CallId × Str) := past.filterMap (·.usedToken)

def pairedTokens (past : List PairingEvent) : List Str := past.filterMap (·.pairedToken)

/-- Single use is asked of tokens that the random source draws only once. -/
structure PairingSafe (cfg : PairingConfig) (m : PairingMaps) (past : List PairingEvent) :
    Prop where
  pending : size m.pending ≤ maxPendingRequests
  devices : size m.devices ≤ cfg.maxDevices
  unexpired : ∀ id request device now, .paired id request device now ∈ past →
    now ≤ request.expiresAt
  single : (createdTokens past).Nodup → (pairedTokens past).Nodup

/-- What a call has checked still holds when it acts on it. -/
def PairingPhase.undisturbed (cfg : PairingConfig) (env : PairingEnv) (m : PairingMaps) :
    PairingPhase → Bool
  | .drawing => size m.pending < maxPendingRequests
  | .spending _ key _ => key ∈ m.pending
  | .storing request deviceInfo => env.now ≤ request.expiresAt ∧
      (size m.devices < cfg.maxDevices ∨ deviceInfo.deviceId ∈ m.devices)
  | _ => true

structure PairingInv (cfg : PairingConfig) (m : PairingMaps) (past : List PairingEvent) : Prop
    extends PairingSafe cfg m past where
  keys : ∀ key request, m.pending.lookup key = some request →
    request.token = key ∧ key ∈ createdTokens past
  usedOnce : (createdTokens past).Nodup → ((usedTokens past).map Prod.snd).Nodup
  usedGone : (createdTokens past).Nodup → ∀ key ∈ (usedTokens past).map Prod.snd, key ∉ m.pending
  usedCreated : ∀ key ∈ (usedTokens past).map Prod.snd, key ∈ createdTokens past
  pairedUsed : ∀ key ∈ pairedTokens past, key ∈ (usedTokens past).map Prod.snd

/-- What a call knows at a point where it stands. -/
def PairingPhase.Knows (id : CallId) (_ : PairingMaps) (past : List PairingEvent) :
    PairingPhase → Prop
  | .checking request key _ => request.token = key
  | .limiting request key _ => request.token = key
  | .spending request key _ => request.token = key
  | .storing request _ => (id, request.token) ∈ usedTokens past ∧
      ((createdTokens past).Nodup → request.token ∉ pairedTokens past)
  | _ => True

variable {cfg : PairingConfig} {persists : Bool} {m m' : PairingMaps}
  {past es : List PairingEvent}

theorem new_inv (cfg : PairingConfig) : PairingInv cfg .new [] where
  pending := Nat.zero_le _
  devices := Nat.zero_le _
  unexpired := by simp
  single := by simp [pairedTokens]
  keys := by simp [PairingMaps.new]
  usedOnce := by simp [usedTokens]
  usedGone := by simp [usedTokens]
  usedCreated := by simp [usedTokens]
  pairedUsed := by simp [pairedTokens]

structure Shrinks (m m' : PairingMaps) : Prop where
  lookup : ∀ key request, m'.pending.lookup key = some request →
    m.pending.lookup key = some request
  pending : size m'.pending ≤ size m.pending
  devices : size m'.devices ≤ size m.devices

theorem Shrinks.refl (m : PairingMaps) : Shrinks m m := ⟨fun _ _ h => h, le_rfl, le_rfl⟩

theorem Shrinks.mem (h : Shrinks m m') {key : Str} (hkey : key ∈ m'.pending) :
    key ∈ m.pending := by
  obtain ⟨request, hr⟩ := Option.isSome_iff_exists.mp (AList.lookup_isSome.mpr hkey)
  exact AList.lookup_isSome.mp (Option.isSome_iff_exists.mpr ⟨request, h.lookup key request hr⟩)

theorem shrinks_cleanExpired (now : DateTime) (m : PairingMaps) :
    Shrinks m (m.cleanExpired now) :=
  ⟨fun _ _ h => (lookup_retain.mp h).1, size_retain_le _ _, le_rfl⟩

theorem shrinks_erase_pending (key : Str) (m : PairingMaps) :
    Shrinks m { m with pending := m.pending.erase key } := by
  refine ⟨fun k request h => ?_, size_erase_le _ _, le_rfl⟩
  rw [lookup_erase] at h
  split at h
  · cases h
  · exact h

theorem shrinks_erase_devices (deviceId : Str) (m : PairingMaps) :
    Shrinks m { m with devices := m.devices.erase deviceId } :=
  ⟨fun _ _ h => h, le_rfl, size_erase_le _ _⟩

/-- Events that no token is created, used or paired in. -/
def Quiet (es : List PairingEvent) : Prop :=
  ∀ e ∈ es, e.createdToken = none ∧ e.usedToken = none ∧ e.pairedToken = none

theorem Quiet.createdTokens (h : Quiet es) : createdTokens (past ++ es) = createdTokens past := by
  rw [Kernel.createdTokens, List.filterMap_append,
    List.filterMap_eq_nil_iff.mpr fun e he => (h e he).1, List.append_nil]
  rfl

theorem Quiet.usedTokens (h : Quiet es) : usedTokens (past ++ es) = usedTokens past := by
  rw [Kernel.usedTokens, List.filterMap_append,
    List.filterMap_eq_nil_iff.mpr fun e he => (h e he).2.1, List.append_nil]
  rfl

theorem Quiet.pairedTokens (h : Quiet es) : pairedTokens (past ++ es) = pairedTokens past := by
  rw [Kernel.pairedTokens, List.filterMap_append,
    List.filterMap_eq_nil_iff.mpr fun e he => (h e he).2.2, List.append_nil]
  rfl

theorem PairingInv.quiet (h : PairingInv cfg m past) (hm : Shrinks m m') (hes : Quiet es) :
    PairingInv cfg m' (past ++ es) where
  pending := hm.pending.trans h.pending
  devices := hm.devices.trans h.devices
  unexpired id request device now he := by
    rcases List.mem_append.mp he with hpast | hnew
    · exact h.unexpired id request device now hpast
    · cases (hes _ hnew).2.2
  single := by
    rw [hes.createdTokens, hes.pairedTokens]
    exact h.single
  keys key request hkey := by
    rw [hes.createdTokens]
    exact h.keys key request (hm.lookup key request hkey)
  usedOnce := by
    rw [hes.createdTokens, hes.usedTokens]
    exact h.usedOnce
  usedGone := by
    rw [hes.createdTokens, hes.usedTokens]
    exact fun hnodup key hkey hmem => h.usedGone hnodup key hkey (hm.mem hmem)
  usedCreated := by
    rw [hes.createdTokens, hes.usedTokens]
    exact h.usedCreated
  pairedUsed := by
    rw [hes.pairedTokens, hes.usedTokens]
    exact h.pairedUsed

theorem PairingInv.draw (h : PairingInv cfg m past) (request : PairingRequest)
    (hsize : size m.pending < maxPendingRequests) :
    PairingInv cfg { m with pending := m.pending.insert request.token request }
      (past ++ [.created request]) := by
  have hcreated : createdTokens (past ++ [.created request]) =
      createdTokens past ++ [request.token] := by
    simp [createdTokens, PairingEvent.createdToken]
  have hused : usedTokens (past ++ [.created request]) = usedTokens past := by
    simp [usedTokens, PairingEvent.usedToken]
  have hpaired : pairedTokens (past ++ [.created request]) = pairedTokens past := by
    simp [pairedTokens, PairingEvent.pairedToken]
  constructor
  · constructor
    · exact (size_insert_le _ _ _).trans hsize
    · exact h.devices
    · intro id r device now he
      exact h.unexpired id r device now (by simpa using he)
    · rw [hcreated, hpaired]
      exact fun hnodup => h.single hnodup.of_append_left
  · intro key r hkey
    rw [lookup_insert] at hkey
    rw [hcreated]
    split at hkey
    · cases hkey
      simp_all
    · have hold := h.keys key r hkey
      exact ⟨hold.1, List.mem_append_left _ hold.2⟩
  · rw [hcreated, hused]
    exact fun hnodup => h.usedOnce hnodup.of_append_left
  · rw [hcreated, hused]
    intro hnodup key hkey hmem
    rcases (AList.mem_insert _).mp hmem with rfl | hmem
    · exact (List.nodup_append.mp hnodup).2.2 _ (h.usedCreated _ hkey) _ (by simp) rfl
    · exact h.usedGone hnodup.of_append_left key hkey hmem
  · rw [hcreated, hused]
    exact fun key hkey => List.mem_append_left _ (h.usedCreated key hkey)
  · rw [hpaired, hused]
    exact h.pairedUsed

theorem PairingInv.use (id : CallId) {key : Str} (h : PairingInv cfg m past)
    (hkey : key ∈ m.pending) :
    PairingInv cfg { m with pending := m.pending.erase key } (past ++ [.used id key]) ∧
      ((createdTokens (past ++ [.used id key])).Nodup →
        key ∉ pairedTokens (past ++ [.used id key])) := by
  have hcreated : createdTokens (past ++ [.used id key]) = createdTokens past := by
    simp [createdTokens, PairingEvent.createdToken]
  have hused : usedTokens (past ++ [.used id key]) = usedTokens past ++ [(id, key)] := by
    simp [usedTokens, PairingEvent.usedToken]
  have hpaired : pairedTokens (past ++ [.used id key]) = pairedTokens past := by
    simp [pairedTokens, PairingEvent.pairedToken]
  have hfresh : (createdTokens past).Nodup → key ∉ (usedTokens past).map Prod.snd :=
    fun hnodup hmem => h.usedGone hnodup key hmem hkey
  have hshrinks := shrinks_erase_pending key m
  constructor
  · constructor
    · constructor
      · exact hshrinks.pending.trans h.pending
      · exact h.devices
      · intro i r device now he
        exact h.unexpired i r device now (by simpa using he)
      · rw [hcreated, hpaired]
        exact h.single
    · intro k r hk
      rw [hcreated]
      exact h.keys k r (hshrinks.lookup k r hk)
    · rw [hcreated, hused, List.map_append]
      intro hnodup
      simpa using (h.usedOnce hnodup).concat (hfresh hnodup)
    · rw [hcreated, hused, List.map_append]
      intro hnodup k hk hmem
      rcases List.mem_append.mp hk with hold | hnew
      · exact h.usedGone hnodup k hold (hshrinks.mem hmem)
      · exact (AList.mem_erase.mp hmem).1 (by simpa using hnew)
    · rw [hcreated, hused, List.map_append]
      intro k hk
      rcases List.mem_append.mp hk with hold | hnew
      · exact h.usedCreated k hold
      · obtain ⟨r, hr⟩ := Option.isSome_iff_exists.mp (AList.lookup_isSome.mpr hkey)
        obtain rfl : k = key := by simpa using hnew
        exact (h.keys k r hr).2
    · rw [hpaired, hused, List.map_append]
      exact fun k hk => List.mem_append_left _ (h.pairedUsed k hk)
  · rw [hcreated, hpaired]
    exact fun hnodup hmem => hfresh hnodup (h.pairedUsed key hmem)

theorem PairingInv.pair {id : CallId} {request : PairingRequest} {device : PairedDevice}
    {now : DateTime} (h : PairingInv cfg m past)
    (hknows : (id, request.token) ∈ usedTokens past ∧
      ((createdTokens past).Nodup → request.token ∉ pairedTokens past))
    (hnow : now ≤ request.expiresAt)
    (hsize : size m.devices < cfg.maxDevices ∨ device.deviceId ∈ m.devices) :
    PairingInv cfg { m with devices := m.devices.insert device.deviceId device }
      (past ++ [.paired id request device now]) := by
  have hcreated : createdTokens (past ++ [.paired id request device now]) = createdTokens past := by
    simp [createdTokens, PairingEvent.createdToken]
  have hused : usedTokens (past ++ [.paired id request device now]) = usedTokens past := by
    simp [usedTokens, PairingEvent.usedToken]
  have hpaired : pairedTokens (past ++ [.paired id request device now]) =
      pairedTokens past ++ [request.token] := by
    simp [pairedTokens, PairingEvent.pairedToken]
  constructor
  · constructor
    · exact h.pending
    · rcases hsize with hlt | hmem
      · exact (size_insert_le _ _ _).trans hlt
      · exact (size_insert_of_mem hmem device).le.trans h.devices
    · intro i r d t he
      rcases List.mem_append.mp he with hold | hnew
      · exact h.unexpired i r d t hold
      · obtain ⟨-, rfl, -, rfl⟩ : i = id ∧ r = request ∧ d = device ∧ t = now := by
          simpa using hnew
        exact hnow
    · rw [hcreated, hpaired]
      intro hnodup
      simpa using (h.single hnodup).concat (hknows.2 hnodup)
  · rw [hcreated]
    exact h.keys
  · rw [hcreated, hused]
    exact h.usedOnce
  · rw [hcreated, hused]
    exact h.usedGone
  · rw [hcreated, hused]
    exact h.usedCreated
  · rw [hpaired, hused]
    intro k hk
    rcases List.mem_append.mp hk with hold | hnew
    · exact h.pairedUsed k hold
    · obtain rfl : k = request.token := by simpa using hnew
      exact List.mem_map_of_mem (f := Prod.snd) hknows.1

/-- A call only acts on its tokens and devices where it draws, spends or stores. -/
def PairingPhase.plain : PairingPhase → Bool
  | .drawing => false
  | .spending _ _ _ => false
  | .storing _ _ => false
  | _ => true

variable (cfg persists) in
theorem advance_plain {p : PairingPhase} (hp : p.plain) (env : PairingEnv) (id : CallId)
    (m : PairingMaps) :
    Shrinks m (p.advance cfg persists env id m).1.1 ∧
      Quiet (p.advance cfg persists env id m).2 := by
  cases p with
  | drawing => cases hp
  | spending request key deviceInfo => cases hp
  | storing request deviceInfo => cases hp
  | cleaning => exact ⟨shrinks_cleanExpired _ m, by simp [PairingPhase.advance, Quiet]⟩
  | sweeping => exact ⟨shrinks_cleanExpired _ m, by simp [PairingPhase.advance, Quiet]⟩
  | expiring key => exact ⟨shrinks_erase_pending key m, by simp [PairingPhase.advance, Quiet]⟩
  | removing deviceId =>
    simp only [PairingPhase.advance]
    split
    · exact ⟨.refl m, by simp [Quiet]⟩
    · refine ⟨shrinks_erase_devices deviceId m, ?_⟩
      simp [Quiet, PairingEvent.createdToken, PairingEvent.usedToken, PairingEvent.pairedToken]
  | persisting device op answer =>
    refine ⟨.refl m, ?_⟩
    simp [PairingPhase.advance, Quiet, PairingEvent.createdToken, PairingEvent.usedToken,
      PairingEvent.pairedToken]
  | returned answer => exact ⟨.refl m, by simp [PairingPhase.advance, Quiet]⟩
  | panicked => exact ⟨.refl m, by simp [PairingPhase.advance, Quiet]⟩
  | counting | recounting | finding | checking | limiting =>
    simp only [PairingPhase.advance]
    split <;> exact ⟨.refl m, by simp [Quiet]⟩

theorem knows_of_plain {p : PairingPhase} (hp : p.plain) (env : PairingEnv) (id : CallId)
    (h : PairingInv cfg m past) (hk : p.Knows id m past) (m' : PairingMaps)
    (future : List PairingEvent) :
    (p.advance cfg persists env id m).1.2.Knows id m' future := by
  cases p with
  | drawing => cases hp
  | spending request key deviceInfo => cases hp
  | storing request deviceInfo => cases hp
  | finding token deviceInfo =>
    simp only [PairingPhase.advance]
    split
    · trivial
    · rename_i entry hfind
      exact (h.keys entry.1 entry.2 (mem_entries.mp (List.mem_of_find?_eq_some hfind))).1
  | checking request key deviceInfo =>
    simp only [PairingPhase.advance]
    split
    · trivial
    · exact hk
  | limiting request key deviceInfo =>
    simp only [PairingPhase.advance]
    split
    · trivial
    · exact hk
  | removing deviceId =>
    simp only [PairingPhase.advance, thenPersist]
    split
    · trivial
    · split <;> trivial
  | counting | recounting =>
    simp only [PairingPhase.advance]
    split <;> trivial
  | cleaning | sweeping | expiring | persisting | returned | panicked => trivial

theorem pairedTokens_advance {p : PairingPhase} {env : PairingEnv} {id : CallId} {key : Str}
    (h : key ∈ pairedTokens (p.advance cfg persists env id m).2) :
    ∃ request deviceInfo, p = .storing request deviceInfo ∧ key = request.token := by
  cases hp : p.plain with
  | true =>
    have hquiet := (advance_plain cfg persists hp env id m).2
    have hnone : pairedTokens ([] ++ (p.advance cfg persists env id m).2) = pairedTokens [] :=
      hquiet.pairedTokens
    rw [List.nil_append] at hnone
    rw [hnone] at h
    cases h
  | false =>
    cases p with
    | storing request deviceInfo =>
      exact ⟨request, deviceInfo, rfl, by simpa [PairingPhase.advance, pairedTokens,
        PairingEvent.pairedToken] using h⟩
    | spending request k deviceInfo =>
      simp [PairingPhase.advance, pairedTokens, PairingEvent.pairedToken] at h
    | drawing =>
      simp only [PairingPhase.advance] at h
      split at h <;> simp [pairedTokens, PairingEvent.pairedToken] at h
    | _ => cases hp

/-- A token that two calls would have used was used twice. -/
theorem PairingInv.used_unique (h : PairingInv cfg m past) (hnodup : (createdTokens past).Nodup)
    {id other : CallId} {key : Str} (hid : (id, key) ∈ usedTokens past)
    (hother : (other, key) ∈ usedTokens past) : other = id :=
  congrArg Prod.fst (List.inj_on_of_nodup_map (h.usedOnce hnodup) hother hid rfl)

/-- What a call knows is not changed by the steps of the others. -/
theorem knows_others {p q : PairingPhase} {env : PairingEnv} {id other : CallId}
    (hne : other ≠ id) (h : PairingInv cfg m past) (hp : p.Knows id m past)
    (hq : q.Knows other m past) :
    q.Knows other (p.advance cfg persists env id m).1.1
      (past ++ (p.advance cfg persists env id m).2) := by
  cases q with
  | storing request deviceInfo =>
    obtain ⟨hused, hunpaired⟩ := hq
    constructor
    · rw [usedTokens, List.filterMap_append]
      exact List.mem_append_left _ hused
    · intro hnodup hmem
      rw [createdTokens, List.filterMap_append] at hnodup
      rw [pairedTokens, List.filterMap_append] at hmem
      rcases List.mem_append.mp hmem with hold | hnew
      · exact hunpaired hnodup.of_append_left hold
      · obtain ⟨r, d, rfl, htoken⟩ := pairedTokens_advance hnew
        rw [htoken] at hused
        exact hne (h.used_unique hnodup.of_append_left hp.1 hused)
  | checking request key deviceInfo => exact hq
  | limiting request key deviceInfo => exact hq
  | spending request key deviceInfo => exact hq
  | _ => trivial

theorem knows_first (call : PairingCall) (id : CallId) :
    (call.first cfg).Knows id m past := by
  cases call with
  | createPairingRequest =>
    simp only [PairingCall.first]
    split <;> trivial
  | _ => trivial

variable (cfg persists) in
theorem pairing_advance (env : PairingEnv) (id : CallId) {p : PairingPhase}
    (h : PairingInv cfg m past) (hk : p.Knows id m past) (hok : p.undisturbed cfg env m) :
    PairingInv cfg (p.advance cfg persists env id m).1.1
        (past ++ (p.advance cfg persists env id m).2) ∧
      (p.advance cfg persists env id m).1.2.Knows id (p.advance cfg persists env id m).1.1
        (past ++ (p.advance cfg persists env id m).2) := by
  cases hp : p.plain with
  | true =>
    obtain ⟨hshrinks, hquiet⟩ := advance_plain cfg persists hp env id m
    exact ⟨h.quiet hshrinks hquiet, knows_of_plain hp env id h hk _ _⟩
  | false =>
    cases p with
    | drawing =>
      simp only [PairingPhase.advance]
      split
      · exact ⟨by simpa using h, trivial⟩
      · exact ⟨h.draw ⟨_, _, _⟩ (by simpa [PairingPhase.undisturbed] using hok), trivial⟩
    | spending request key deviceInfo =>
      obtain ⟨hinv, hunpaired⟩ := h.use id (by simpa [PairingPhase.undisturbed] using hok)
      obtain rfl : request.token = key := hk
      refine ⟨hinv, ?_, hunpaired⟩
      simp [PairingPhase.advance, usedTokens, PairingEvent.usedToken]
    | storing request deviceInfo =>
      obtain ⟨hnow, hsize⟩ : env.now ≤ request.expiresAt ∧
          (size m.devices < cfg.maxDevices ∨ deviceInfo.deviceId ∈ m.devices) := by
        simpa [PairingPhase.undisturbed] using hok
      refine ⟨h.pair hk hnow hsize, ?_⟩
      simp only [PairingPhase.advance, thenPersist]
      split <;> trivial
    | _ => cases hp

theorem pairing_outline (cfg : PairingConfig) (persists : Bool) :
    Outline (pairing cfg persists) (PairingInv cfg) (fun id m past p => p.Knows id m past)
      (fun env _ m p => p.undisturbed cfg env m) where
  first id _ _ call _ := knows_first call id
  advance env id _ _ _ h hk hok := pairing_advance cfg persists env id h hk hok
  others _ _ _ _ _ _ _ hne h hp _ hq := knows_others hne h hp hq

/-- Where every call acts on what still holds of what it checked, no interleaving
of calls breaks the promises of the manager. -/
theorem pairing_safe (cfg : PairingConfig) (persists : Bool)
    (ms : List (Move PairingCall PairingEnv))
    (hms : Allowed (pairing cfg persists).step
      (Permits fun env _ m p => p.undisturbed cfg env m) (.start .new) ms) :
    PairingSafe cfg (run (pairing cfg persists).step (.start .new) ms).1.shared
      (run (pairing cfg persists).step (.start .new) ms).2 :=
  ((pairing_outline cfg persists).run (new_inv cfg) hms).shared.toPairingSafe

def exampleConfig : PairingConfig := ⟨true, 10, 300⟩

def exampleDevice (deviceId : Str) : PairedDevice := ⟨deviceId, "Phone".toList, "ios".toList, 0, 0, none⟩

def exampleBytes : Vector UInt8 32 := Vector.replicate 32 7

def exampleToken : Str := hexEncode exampleBytes.toList

/-- One call creates a request, the others come with its token. -/
def exampleCalls (callers steps : List CallId) : List (Move PairingCall PairingEnv) :=
  .call 0 .createPairingRequest :: callers.map (fun id =>
    .call id (.completePairing exampleToken (exampleDevice (showNat id)))) ++
    steps.map (fun id => .step id ⟨0, exampleBytes⟩)

theorem pairing_safe_one_device :
    PairingSafe exampleConfig
      (run (pairing exampleConfig true).step (.start .new)
        (exampleCalls [1] [0, 0, 1, 1, 1, 1, 1, 1])).1.shared
      (run (pairing exampleConfig true).step (.start .new)
        (exampleCalls [1] [0, 0, 1, 1, 1, 1, 1, 1])).2 :=
  pairing_safe exampleConfig true (exampleCalls [1] [0, 0, 1, 1, 1, 1, 1, 1]) (by decide)

/-- Two devices that find the token before either removes it are both paired. -/
theorem token_paired_twice : ¬ PairingSafe exampleConfig
    (run (pairing exampleConfig true).step (.start .new)
      (exampleCalls [1, 2] [0, 0, 1, 2, 1, 2, 1, 2, 1, 2, 1, 2])).1.shared
    (run (pairing exampleConfig true).step (.start .new)
      (exampleCalls [1, 2] [0, 0, 1, 2, 1, 2, 1, 2, 1, 2, 1, 2])).2 := by
  intro h
  exact absurd (h.single (by decide)) (by decide)

end Safety

end Clawreform.Kernel
