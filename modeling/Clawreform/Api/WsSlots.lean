import Clawreform.Api.Middleware
import Clawreform.Lib.Calls

namespace Clawreform.Api

open Clawreform.Lib.Run Clawreform.Lib.Store Clawreform.Lib.Calls

def maxWsPerIp : UInt64 := 5

/-- The lock of a shard of the map, with the calls that hold it. -/
structure ShardLock where
  readers : List CallId
  writer : Option CallId
  deriving DecidableEq

def ShardLock.free : ShardLock := ⟨[], none⟩

/-- The map of the connection counts. Its addresses are spread over shards with a lock each. -/
structure WsTracker where
  counts : Map IpAddr UInt64
  locks : Nat → ShardLock

def WsTracker.new : WsTracker := ⟨∅, fun _ => .free⟩

/-- Where a connection stands: between the accesses of `try_acquire_ws_slot`, with a live guard, or
between the accesses of the guard's `drop`. -/
inductive SlotPoint where
  | acquiring (ip : IpAddr)
  | entered (ip : IpAddr)
  | added (ip : IpAddr) (current : UInt64)
  | refusing (ip : IpAddr)
  | refused
  | live (ip : IpAddr)
  | reading (ip : IpAddr)
  | subtracted (ip : IpAddr) (prev : UInt64)
  | removing (ip : IpAddr)
  | closed
  deriving DecidableEq

section Code

/-- The address a connection holds or waits for. -/
def SlotPoint.addr : SlotPoint → Option IpAddr
  | .acquiring ip | .entered ip | .added ip _ | .refusing ip | .live ip | .reading ip
  | .subtracted ip _ | .removing ip => some ip
  | .refused | .closed => none

variable (shardOf : IpAddr → Nat)

def WsTracker.lock (t : WsTracker) (ip : IpAddr) : ShardLock := t.locks (shardOf ip)

def WsTracker.setLock (t : WsTracker) (ip : IpAddr) (l : ShardLock) : WsTracker :=
  { t with locks := Function.update t.locks (shardOf ip) l }

def WsTracker.setCount (t : WsTracker) (ip : IpAddr) (count : UInt64) : WsTracker :=
  { t with counts := t.counts.insert ip count }

def WsTracker.removeCount (t : WsTracker) (ip : IpAddr) : WsTracker :=
  { t with counts := t.counts.erase ip }

/-- One access to the map or to a counter. An access that needs a lock that is taken waits. -/
def advanceSlot (id : CallId) (t : WsTracker) : SlotPoint → WsTracker × SlotPoint
  | .acquiring ip =>
    if t.lock shardOf ip = .free then
      let t := t.setLock shardOf ip ⟨[], some id⟩
      (match t.counts.lookup ip with
        | some _ => t
        | none => t.setCount ip 0, .entered ip)
    else (t, .acquiring ip)
  | .entered ip =>
    match t.counts.lookup ip with
    | some current => (t.setCount ip (current + 1), .added ip current)
    | none => (t, .entered ip)
  | .added ip current =>
    if current ≥ maxWsPerIp then
      match t.counts.lookup ip with
      | some count => (t.setCount ip (count - 1), .refusing ip)
      | none => (t, .added ip current)
    else (t.setLock shardOf ip .free, .live ip)
  | .refusing ip => (t.setLock shardOf ip .free, .refused)
  | .refused => (t, .refused)
  | .live ip =>
    let l := t.lock shardOf ip
    if l.writer.isSome then (t, .live ip)
    else
      match t.counts.lookup ip with
      | some _ => (t.setLock shardOf ip { l with readers := id :: l.readers }, .reading ip)
      | none => (t, .closed)
  | .reading ip =>
    match t.counts.lookup ip with
    | some prev => (t.setCount ip (prev - 1), .subtracted ip prev)
    | none => (t, .reading ip)
  | .subtracted ip prev =>
    let l := t.lock shardOf ip
    (t.setLock shardOf ip { l with readers := l.readers.erase id },
      if prev ≤ 1 then .removing ip else .closed)
  | .removing ip =>
    if t.lock shardOf ip = .free then (t.removeCount ip, .closed)
    else (t, .removing ip)
  | .closed => (t, .closed)

/-- The connections, one call each. -/
def wsMachine : Machine WsTracker SlotPoint IpAddr Unit Unit where
  first := .acquiring
  advance _ id t p := (advanceSlot shardOf id t p, [])

end Code

section Locks

variable {shardOf : IpAddr → Nat} {t : WsTracker} {ip ip' : IpAddr} {l : ShardLock} {c : UInt64}

theorem lock_setLock : (t.setLock shardOf ip l).lock shardOf ip' =
    if shardOf ip' = shardOf ip then l else t.lock shardOf ip' :=
  Function.update_apply ..

@[simp] theorem counts_setLock : (t.setLock shardOf ip l).counts = t.counts := rfl

@[simp] theorem lock_setCount : (t.setCount ip c).lock shardOf ip' = t.lock shardOf ip' := rfl

theorem lookup_setCount : (t.setCount ip c).counts.lookup ip' =
    if ip' = ip then some c else t.counts.lookup ip' := lookup_insert ..

@[simp] theorem lock_removeCount : (t.removeCount ip).lock shardOf ip' = t.lock shardOf ip' := rfl

theorem lookup_removeCount : (t.removeCount ip).counts.lookup ip' =
    if ip' = ip then none else t.counts.lookup ip' := lookup_erase ..

/-- What a call can rely on at the point where it stands. -/
def AtPoint (shardOf : IpAddr → Nat) (id : CallId) (t : WsTracker) : SlotPoint → Prop
  | .entered ip => t.lock shardOf ip = ⟨[], some id⟩ ∧ (t.counts.lookup ip).isSome
  | .added ip current =>
    t.lock shardOf ip = ⟨[], some id⟩ ∧ t.counts.lookup ip = some (current + 1)
  | .refusing ip => t.lock shardOf ip = ⟨[], some id⟩
  | .reading ip => id ∈ (t.lock shardOf ip).readers ∧ (t.lock shardOf ip).writer = none ∧
      (t.counts.lookup ip).isSome
  | .subtracted ip _ => id ∈ (t.lock shardOf ip).readers ∧ (t.lock shardOf ip).writer = none
  | _ => True

variable {id other : CallId} {p q : SlotPoint}

theorem lock_congr (h : shardOf ip = shardOf ip') : t.lock shardOf ip = t.lock shardOf ip' :=
  congrArg t.locks h

/-- An access stays in the shard of its address. -/
theorem advance_elsewhere (h : ∀ ip' ∈ p.addr, shardOf ip ≠ shardOf ip') :
    (advanceSlot shardOf id t p).1.lock shardOf ip = t.lock shardOf ip ∧
      (advanceSlot shardOf id t p).1.counts.lookup ip = t.counts.lookup ip := by
  cases p with
  | refused | closed => exact ⟨rfl, rfl⟩
  | acquiring ip' | entered ip' | added ip' | refusing ip' | live ip' | reading ip'
  | subtracted ip' | removing ip' =>
    have hshard := h ip' rfl
    have hne : ip ≠ ip' := fun he => hshard (congrArg shardOf he)
    simp only [advanceSlot]
    repeat' split
    all_goals simp [lock_setLock, lookup_setCount, lookup_removeCount, hshard, hne]

/-- A shard that another call writes to is left alone. -/
theorem advance_written (h : AtPoint shardOf id t p) (hne : other ≠ id)
    (hlock : t.lock shardOf ip = ⟨[], some other⟩) :
    (advanceSlot shardOf id t p).1.lock shardOf ip = ⟨[], some other⟩ ∧
      (advanceSlot shardOf id t p).1.counts.lookup ip = t.counts.lookup ip := by
  by_cases hshard : ∀ ip' ∈ p.addr, shardOf ip ≠ shardOf ip'
  · rw [← hlock]
    exact advance_elsewhere hshard
  · push Not at hshard
    obtain ⟨ip', hip, hsame⟩ := hshard
    rw [lock_congr hsame] at hlock ⊢
    cases p <;> cases hip <;>
      simp_all [advanceSlot, AtPoint, ShardLock.free]

/-- In a shard that another call reads, counts change but stay. -/
theorem advance_read (h : AtPoint shardOf id t p) (hne : other ≠ id)
    (hread : other ∈ (t.lock shardOf ip).readers) (hwriter : (t.lock shardOf ip).writer = none) :
    other ∈ ((advanceSlot shardOf id t p).1.lock shardOf ip).readers ∧
      ((advanceSlot shardOf id t p).1.lock shardOf ip).writer = none ∧
      ((t.counts.lookup ip).isSome →
        ((advanceSlot shardOf id t p).1.counts.lookup ip).isSome) := by
  by_cases hshard : ∀ ip' ∈ p.addr, shardOf ip ≠ shardOf ip'
  · obtain ⟨hlock, hcounts⟩ := @advance_elsewhere shardOf t ip id p hshard
    rw [hlock, hcounts]
    exact ⟨hread, hwriter, fun hsome => hsome⟩
  · push Not at hshard
    obtain ⟨ip', hip, hsame⟩ := hshard
    rw [lock_congr hsame] at hread hwriter ⊢
    have hfree : t.lock shardOf ip' ≠ .free := fun he => by simp [he, ShardLock.free] at hread
    cases p with
    | acquiring | removing => cases hip; simpa [advanceSlot, hfree] using ⟨hread, hwriter⟩
    | entered | added => cases hip; simp [h.1] at hread
    | refusing =>
      cases hip
      have hlock : t.lock shardOf ip' = ⟨[], some id⟩ := h
      simp [hlock] at hread
    | refused | closed => cases hip
    | live =>
      cases hip
      cases hcount : t.counts.lookup ip' <;>
        simp [advanceSlot, hwriter, hcount, lock_setLock, hread]
    | reading =>
      cases hip
      obtain ⟨c, hc⟩ := Option.isSome_iff_exists.mp h.2.2
      refine ⟨by simpa [advanceSlot, hc] using hread, by simpa [advanceSlot, hc] using hwriter, ?_⟩
      intro hsome
      simp only [advanceSlot, hc, lookup_setCount]
      split
      · rfl
      · exact hsome
    | subtracted =>
      cases hip
      simp [advanceSlot, lock_setLock, hwriter, List.mem_erase_of_ne hne, hread]

/-- The steps of a call keep what another call relies on. -/
theorem atPoint_others (h : AtPoint shardOf id t p) (hne : other ≠ id)
    (hother : AtPoint shardOf other t q) :
    AtPoint shardOf other (advanceSlot shardOf id t p).1 q := by
  cases q with
  | acquiring | refused | live | removing | closed => trivial
  | entered ip =>
    obtain ⟨hlock, hcounts⟩ := advance_written h hne hother.1
    exact ⟨hlock, hcounts ▸ hother.2⟩
  | added ip current =>
    obtain ⟨hlock, hcounts⟩ := advance_written h hne hother.1
    exact ⟨hlock, hcounts ▸ hother.2⟩
  | refusing ip => exact (advance_written h hne hother).1
  | reading ip =>
    obtain ⟨hread, hwriter, hcounts⟩ := advance_read h hne hother.1 hother.2.1
    exact ⟨hread, hwriter, hcounts hother.2.2⟩
  | subtracted ip prev =>
    obtain ⟨hread, hwriter, -⟩ := advance_read h hne hother.1 hother.2
    exact ⟨hread, hwriter⟩

/-- A step takes a call from one point to what it relies on at the next. -/
theorem atPoint_advance (h : AtPoint shardOf id t p) :
    AtPoint shardOf id (advanceSlot shardOf id t p).1 (advanceSlot shardOf id t p).2 := by
  cases p with
  | refused | closed => trivial
  | acquiring ip =>
    simp only [advanceSlot]
    split
    · cases hcount : t.counts.lookup ip with
      | some c => simp [AtPoint, lock_setLock, hcount]
      | none => simp [AtPoint, lock_setLock, lookup_setCount, hcount]
    · trivial
  | entered ip =>
    obtain ⟨hlock, hsome⟩ := h
    obtain ⟨c, hc⟩ := Option.isSome_iff_exists.mp hsome
    simp [advanceSlot, hc, AtPoint, hlock, lookup_setCount]
  | added ip current =>
    obtain ⟨hlock, hcount⟩ := h
    simp only [advanceSlot, hcount]
    split
    · exact hlock
    · trivial
  | refusing ip => trivial
  | live ip =>
    simp only [advanceSlot]
    split
    · trivial
    · cases hcount : t.counts.lookup ip with
      | some c => simp_all [AtPoint, lock_setLock]
      | none => trivial
  | reading ip =>
    obtain ⟨hread, hwriter, hsome⟩ := h
    obtain ⟨c, hc⟩ := Option.isSome_iff_exists.mp hsome
    simp [advanceSlot, hc, AtPoint, hread, hwriter]
  | subtracted ip prev =>
    simp only [advanceSlot]
    split <;> trivial
  | removing ip =>
    simp only [advanceSlot]
    split <;> trivial

theorem lookup_elsewhere (h : ∀ ip' ∈ p.addr, ip ≠ ip') :
    (advanceSlot shardOf id t p).1.counts.lookup ip = t.counts.lookup ip := by
  cases p with
  | refused | closed => rfl
  | acquiring ip' | entered ip' | added ip' | refusing ip' | live ip' | reading ip'
  | subtracted ip' | removing ip' =>
    have hne := h ip' rfl
    simp only [advanceSlot]
    repeat' split
    all_goals simp [lookup_setCount, lookup_removeCount, hne]

theorem addr_advance : (advanceSlot shardOf id t p).2.addr = p.addr ∨
    (advanceSlot shardOf id t p).2.addr = none := by
  cases p <;> simp only [advanceSlot] <;> repeat' split
  all_goals first | exact .inl rfl | exact .inr rfl

theorem wsOutline : Outline (wsMachine shardOf) (fun _ _ => True)
    (fun id t _ p => AtPoint shardOf id t p) (fun _ _ _ _ => True) where
  first _ _ _ _ _ := trivial
  advance _ _ _ _ _ _ h _ := ⟨trivial, atPoint_advance h⟩
  others _ _ _ _ _ _ _ hne _ h _ hother := atPoint_others h hne hother

end Locks

section Counts

def SlotPoint.entering (ip : IpAddr) (p : SlotPoint) : Bool := p = .entered ip

/-- The connection is counted but will be refused. -/
def SlotPoint.full (ip : IpAddr) : SlotPoint → Bool
  | .added ip' current => ip' = ip ∧ maxWsPerIp ≤ current
  | _ => false

/-- The connection has a slot that is counted. -/
@[grind =] def SlotPoint.held (ip : IpAddr) : SlotPoint → Bool
  | .added ip' current => ip' = ip ∧ current < maxWsPerIp
  | .live ip' | .reading ip' => ip' = ip
  | _ => false

/-- The connection has counted down to zero and will remove the entry. -/
@[grind =] def SlotPoint.draining (ip : IpAddr) : SlotPoint → Bool
  | .subtracted ip' prev => ip' = ip ∧ prev ≤ 1
  | .removing ip' => ip' = ip
  | _ => false

/-- How many connections of an address stand where. -/
structure Tally where
  entering : Nat
  full : Nat
  held : Nat
  draining : Nat

def Tally.add (n : Tally) (ip : IpAddr) (p : SlotPoint) : Tally :=
  ⟨n.entering + (p.entering ip).toNat, n.full + (p.full ip).toNat, n.held + (p.held ip).toNat,
    n.draining + (p.draining ip).toNat⟩

/-- As long as nobody is about to remove an entry, its count is made up of slots. -/
def Sound (count : Option UInt64) (n : Tally) : Prop :=
  n.draining = 0 → ∀ c, count = some c → c.toNat = 0 ∧ 0 < n.entering ∨
    0 < c.toNat ∧ c.toNat ≤ n.held + n.full ∧ c.toNat ≤ 5 + n.full

/-- The count of an address is the number of its slots. -/
structure Exact (count : Option UInt64) (n : Tally) : Prop where
  absent : count = none → n.entering = 0 ∧ n.full = 0 ∧ n.held = 0 ∧ n.draining = 0
  present : ∀ c, count = some c → c.toNat = n.held + n.full
  drained : 0 < n.draining → n.draining = 1 ∧ count = some 0 ∧ n.entering = 0
  bounded : n.held ≤ 5

variable {shardOf : IpAddr → Nat} {id : CallId} {t : WsTracker} {p : SlotPoint} {ip : IpAddr}
  {n : Tally}

theorem add_elsewhere (h : ∀ ip' ∈ p.addr, ip ≠ ip') : n.add ip p = n := by
  cases p with
  | refused | closed => rfl
  | acquiring ip' | entered ip' | added ip' | refusing ip' | live ip' | reading ip'
  | subtracted ip' | removing ip' =>
    have hne := h ip' rfl
    simp [Tally.add, SlotPoint.entering, SlotPoint.full, SlotPoint.held, SlotPoint.draining,
      Ne.symm hne]

@[simp] theorem add_acquiring : n.add ip (.acquiring ip) = n := rfl

@[simp] theorem add_refusing : n.add ip (.refusing ip) = n := rfl

@[simp] theorem add_closed : n.add ip .closed = n := rfl

@[simp] theorem add_entered : n.add ip (.entered ip) = { n with entering := n.entering + 1 } := by
  simp [Tally.add, SlotPoint.entering, SlotPoint.full, SlotPoint.held, SlotPoint.draining]

@[simp] theorem add_live : n.add ip (.live ip) = { n with held := n.held + 1 } := by
  simp [Tally.add, SlotPoint.entering, SlotPoint.full, SlotPoint.held, SlotPoint.draining]

@[simp] theorem add_reading : n.add ip (.reading ip) = { n with held := n.held + 1 } := by
  simp [Tally.add, SlotPoint.entering, SlotPoint.full, SlotPoint.held, SlotPoint.draining]

@[simp] theorem add_removing :
    n.add ip (.removing ip) = { n with draining := n.draining + 1 } := by
  simp [Tally.add, SlotPoint.entering, SlotPoint.full, SlotPoint.held, SlotPoint.draining]

theorem add_added (current : UInt64) : n.add ip (.added ip current) =
    if maxWsPerIp ≤ current then { n with full := n.full + 1 }
    else { n with held := n.held + 1 } := by
  by_cases h : maxWsPerIp ≤ current
  · have hnot : ¬ current < maxWsPerIp := by simpa using h
    simp [Tally.add, SlotPoint.entering, SlotPoint.full, SlotPoint.held, SlotPoint.draining, h, hnot]
  · have hlt : current < maxWsPerIp := by simpa using h
    simp [Tally.add, SlotPoint.entering, SlotPoint.full, SlotPoint.held, SlotPoint.draining, h, hlt]

theorem add_subtracted (prev : UInt64) : n.add ip (.subtracted ip prev) =
    if prev ≤ 1 then { n with draining := n.draining + 1 } else n := by
  by_cases h : prev ≤ 1 <;>
    simp [Tally.add, SlotPoint.entering, SlotPoint.full, SlotPoint.held, SlotPoint.draining, h]

theorem toNat_succ {c : UInt64} (h : c.toNat ≤ 5) : (c + 1).toNat = c.toNat + 1 := by
  rw [UInt64.toNat_add]
  exact Nat.mod_eq_of_lt (by have : (1 : UInt64).toNat = 1 := rfl; omega)

theorem toNat_succ_of_pos {c : UInt64} (h : 0 < (c + 1).toNat) : (c + 1).toNat = c.toNat + 1 := by
  have hone : (1 : UInt64).toNat = 1 := rfl
  have hlt := c.toNat_lt
  rw [UInt64.toNat_add, hone] at h ⊢
  omega

theorem toNat_pred {c : UInt64} (h : 0 < c.toNat) : (c - 1).toNat = c.toNat - 1 :=
  UInt64.toNat_sub_of_le _ _ (UInt64.le_iff_toNat_le.mpr h)

theorem max_le_iff {c : UInt64} : maxWsPerIp ≤ c ↔ 5 ≤ c.toNat := UInt64.le_iff_toNat_le

theorem le_one_iff {c : UInt64} : c ≤ 1 ↔ c.toNat ≤ 1 := UInt64.le_iff_toNat_le

/-- The connection holds the lock of its shard. -/
def SlotPoint.locks : SlotPoint → Bool
  | .entered _ | .added _ _ | .refusing _ | .reading _ | .subtracted _ _ => true
  | _ => false

/-- No connection opens the entry of an address whose count is down at zero. -/
def OpensCounted (_ : Unit) (_ : CallId) (t : WsTracker) : SlotPoint → Prop
  | .acquiring ip => t.counts.lookup ip ≠ some 0
  | _ => True

instance (env : Unit) (id : CallId) (t : WsTracker) (p : SlotPoint) :
    Decidable (OpensCounted env id t p) :=
  match p with
  | .acquiring ip => inferInstanceAs (Decidable (t.counts.lookup ip ≠ some 0))
  | .entered _ | .added _ _ | .refusing _ | .refused | .live _ | .reading _ | .subtracted _ _
  | .removing _ | .closed => .isTrue trivial

/-- What a step of a connection does to the count of its address and to where the connections
of the address stand, with those of the others. In a calm run no count of zero is opened. -/
inductive SlotChange (calm : Prop) (n : Tally) : Option UInt64 → Tally → Option UInt64 → Tally → Prop
  | stay (count : Option UInt64) (m : Tally) : SlotChange calm n count m count m
  | create : SlotChange calm n none n (some 0) { n with entering := n.entering + 1 }
  | enter (c : UInt64) (hcalm : calm → c ≠ 0) :
    SlotChange calm n (some c) n (some c) { n with entering := n.entering + 1 }
  | hold (c : UInt64) (hlt : c.toNat < 5) (hentering : n.entering = 0) (hfull : n.full = 0) :
    SlotChange calm n (some c) { n with entering := n.entering + 1 }
      (some (c + 1)) { n with held := n.held + 1 }
  | overfill (c : UInt64) (hle : 5 ≤ c.toNat) (hentering : n.entering = 0) (hfull : n.full = 0) :
    SlotChange calm n (some c) { n with entering := n.entering + 1 }
      (some (c + 1)) { n with full := n.full + 1 }
  | refuse (c : UInt64) (hle : 5 ≤ c.toNat) (hentering : n.entering = 0) (hfull : n.full = 0) :
    SlotChange calm n (some (c + 1)) { n with full := n.full + 1 } (some c) n
  | lose : SlotChange calm n none { n with held := n.held + 1 } none n
  | release (c : UInt64) (hlt : 1 < c.toNat) (hentering : n.entering = 0) (hfull : n.full = 0) :
    SlotChange calm n (some c) { n with held := n.held + 1 } (some (c - 1)) n
  | drain (c : UInt64) (hle : c.toNat ≤ 1) (hentering : n.entering = 0) (hfull : n.full = 0) :
    SlotChange calm n (some c) { n with held := n.held + 1 }
      (some (c - 1)) { n with draining := n.draining + 1 }
  | remove (count : Option UInt64) :
    SlotChange calm n count { n with draining := n.draining + 1 } none n

theorem advance_change (hp : AtPoint shardOf id t p)
    (hout : p.locks → p.addr = some ip → n.entering = 0 ∧ n.full = 0) :
    SlotChange (OpensCounted () id t p) n (t.counts.lookup ip) (n.add ip p)
      ((advanceSlot shardOf id t p).1.counts.lookup ip)
      (n.add ip (advanceSlot shardOf id t p).2) := by
  by_cases hip : p.addr = some ip
  · cases p with
    | refused | closed | refusing => exact .stay _ _
    | acquiring =>
      cases hip
      simp only [advanceSlot]
      split
      · cases hcount : t.counts.lookup ip with
        | none => simpa [hcount, lookup_setCount] using SlotChange.create
        | some c =>
          have hcalm : OpensCounted () id t (.acquiring ip) → c ≠ 0 := by
            rintro hopens rfl
            exact hopens hcount
          simpa [hcount] using SlotChange.enter c hcalm
      · exact .stay _ _
    | entered =>
      cases hip
      obtain ⟨hentering, hfull⟩ := hout rfl rfl
      obtain ⟨c, hc⟩ := Option.isSome_iff_exists.mp hp.2
      simp only [advanceSlot, hc, lookup_setCount, if_pos, add_entered, add_added]
      split
      · rename_i hle
        exact .overfill c (max_le_iff.mp hle) hentering hfull
      · rename_i hlt
        exact .hold c (Nat.lt_of_not_le fun hle => hlt (max_le_iff.mpr hle)) hentering hfull
    | added _ current =>
      cases hip
      obtain ⟨hentering, hfull⟩ := hout rfl rfl
      simp only [advanceSlot, hp.2, add_added]
      split
      · rename_i hle
        simpa [lookup_setCount] using SlotChange.refuse current (max_le_iff.mp hle) hentering hfull
      · simpa [hp.2] using SlotChange.stay _ _
    | live =>
      cases hip
      simp only [advanceSlot]
      split
      · exact .stay _ _
      · cases hcount : t.counts.lookup ip with
        | none => simpa [hcount] using SlotChange.lose
        | some c => simpa [hcount] using SlotChange.stay _ _
    | reading =>
      cases hip
      obtain ⟨hentering, hfull⟩ := hout rfl rfl
      obtain ⟨c, hc⟩ := Option.isSome_iff_exists.mp hp.2.2
      simp only [advanceSlot, hc, lookup_setCount, if_pos, add_reading, add_subtracted]
      split
      · rename_i hle
        exact .drain c (le_one_iff.mp hle) hentering hfull
      · rename_i hlt
        exact .release c (Nat.lt_of_not_le fun hle => hlt (le_one_iff.mpr hle)) hentering hfull
    | subtracted _ prev =>
      cases hip
      simp only [advanceSlot, add_subtracted]
      split <;> simpa using SlotChange.stay _ _
    | removing =>
      cases hip
      simp only [advanceSlot]
      split
      · simpa [lookup_removeCount] using SlotChange.remove _
      · exact .stay _ _
  · have hne : ∀ ip' ∈ p.addr, ip ≠ ip' := fun ip' hip' he => hip (he ▸ hip')
    have hnext : ∀ ip' ∈ (advanceSlot shardOf id t p).2.addr, ip ≠ ip' := by
      have haddr : (advanceSlot shardOf id t p).2.addr = p.addr ∨
          (advanceSlot shardOf id t p).2.addr = none := addr_advance
      obtain ha | ha := haddr
      · rwa [ha]
      · simp [ha]
    rw [lookup_elsewhere hne, add_elsewhere hnext, add_elsewhere hne]
    exact .stay _ _

variable {calm : Prop} {count count' : Option UInt64} {m m' : Tally}

theorem Sound.change (h : Sound count m) (hchange : SlotChange calm n count m count' m') :
    Sound count' m' := by
  cases hchange with
  | stay => exact h
  | create =>
    rintro - c hc
    cases hc
    exact .inl ⟨rfl, Nat.succ_pos _⟩
  | enter c =>
    intro hdrain c' hc
    obtain ⟨hzero, -⟩ | hpos := h hdrain c' hc
    · exact .inl ⟨hzero, Nat.succ_pos _⟩
    · exact .inr hpos
  | hold c hlt hentering hfull =>
    intro hdrain c' hc
    cases hc
    rw [toNat_succ (by omega)]
    have hbound := h hdrain c rfl
    dsimp only at hbound ⊢
    omega
  | overfill c hle hentering hfull =>
    intro hdrain c' hc
    cases hc
    have hbound := h hdrain c rfl
    dsimp only at hbound ⊢
    rw [toNat_succ (by omega)]
    omega
  | refuse c hle hentering hfull =>
    intro hdrain c' hc
    cases hc
    have hbound := h hdrain (c + 1) rfl
    dsimp only at hbound ⊢
    rw [toNat_succ_of_pos (by omega)] at hbound
    omega
  | lose => exact fun _ c hc => by cases hc
  | release c hlt hentering hfull =>
    intro hdrain c' hc
    cases hc
    have hbound := h hdrain c rfl
    dsimp only at hbound ⊢
    rw [toNat_pred (by omega)]
    omega
  | drain c => exact fun hdrain => absurd hdrain (Nat.succ_ne_zero _)
  | remove => exact fun _ c hc => by cases hc

theorem Exact.change (h : Exact count m) (hchange : SlotChange calm n count m count' m') (hcalm : calm) :
    Exact count' m' := by
  cases hchange with
  | stay => exact h
  | create =>
    obtain ⟨hentering, hfull, hheld, hdraining⟩ := h.absent rfl
    refine ⟨nofun, fun c hc => ?_, fun hpos => ?_, h.bounded⟩
    · cases hc
      dsimp only
      rw [hfull, hheld]
      rfl
    · exact absurd hdraining hpos.ne'
  | enter c hopens =>
    refine ⟨nofun, h.present, fun hpos => ?_, h.bounded⟩
    exact absurd (Option.some.inj (h.drained hpos).2.1) (hopens hcalm)
  | hold c hlt hentering hfull =>
    have hcount := h.present c rfl
    have hdrain := h.drained
    dsimp only at hcount hdrain
    refine ⟨nofun, fun c' hc => ?_, fun hpos => ?_, ?_⟩
    · cases hc
      rw [toNat_succ (by omega)]
      dsimp only
      omega
    · exact absurd (hdrain hpos).2.2 (Nat.succ_ne_zero _)
    · dsimp only
      omega
  | overfill c hle hentering hfull =>
    have hcount := h.present c rfl
    have hdrain := h.drained
    have hbound := h.bounded
    dsimp only at hcount hdrain hbound
    refine ⟨nofun, fun c' hc => ?_, fun hpos => ?_, hbound⟩
    · cases hc
      rw [toNat_succ (by omega)]
      dsimp only
      omega
    · exact absurd (hdrain hpos).2.2 (Nat.succ_ne_zero _)
  | refuse c hle hentering hfull =>
    have hcount := h.present (c + 1) rfl
    have hdrain := h.drained
    dsimp only at hcount hdrain
    have hsucc := toNat_succ_of_pos (c := c) (by omega)
    refine ⟨nofun, fun c' hc => ?_, fun hpos => ?_, h.bounded⟩
    · cases hc
      omega
    · have hzero : c + 1 = 0 := Option.some.inj (hdrain hpos).2.1
      rw [hzero] at hsucc
      exact absurd hsucc (Nat.succ_ne_zero _).symm
  | lose => exact absurd (h.absent rfl).2.2.1 (Nat.succ_ne_zero _)
  | release c hlt hentering hfull =>
    have hcount := h.present c rfl
    have hbound := h.bounded
    have hdrain := h.drained
    dsimp only at hcount hbound hdrain
    refine ⟨nofun, fun c' hc => ?_, fun hpos => ?_, ?_⟩
    · cases hc
      rw [toNat_pred (by omega)]
      omega
    · have hzero : c = 0 := Option.some.inj (hdrain hpos).2.1
      rw [hzero] at hlt
      exact absurd hlt (by decide)
    · omega
  | drain c hle hentering hfull =>
    have hcount := h.present c rfl
    have hbound := h.bounded
    have hdrain := h.drained
    dsimp only at hcount hbound hdrain
    have hone : c = 1 := UInt64.toNat_inj.mp (by rw [hcount]; show _ = 1; omega)
    have hnone : n.draining = 0 := by
      by_contra hne
      have hzero : c = 0 := Option.some.inj (hdrain (Nat.pos_of_ne_zero hne)).2.1
      rw [hone] at hzero
      exact absurd hzero (by decide)
    subst hone
    refine ⟨nofun, fun c' hc => ?_, fun _ => ?_, ?_⟩
    · cases hc
      have hsum : 1 = n.held + 1 + n.full := hcount
      show 0 = n.held + n.full
      omega
    · exact ⟨by dsimp only; omega, rfl, hentering⟩
    · dsimp only
      omega
  | remove =>
    have hdrain := h.drained (Nat.succ_pos _)
    have hcount : 0 = n.held + n.full := h.present 0 hdrain.2.1
    dsimp only at hdrain
    refine ⟨fun _ => ?_, nofun, fun hpos => ?_, h.bounded⟩
    · exact ⟨hdrain.2.2, by omega, by omega, by omega⟩
    · omega

end Counts
section Runs

variable (shardOf : IpAddr → Nat)

abbrev WsState := System WsTracker SlotPoint

def tally (ip : IpAddr) (s : WsState) : Tally :=
  ⟨s.count (·.entering ip), s.count (·.full ip), s.count (·.held ip), s.count (·.draining ip)⟩

def tallyOthers (ip : IpAddr) (id : CallId) (s : WsState) : Tally :=
  ⟨s.others (·.entering ip) id, s.others (·.full ip) id, s.others (·.held ip) id,
    s.others (·.draining ip) id⟩

variable {shardOf} {s : WsState} {id : CallId} {p : SlotPoint} {ip : IpAddr}

def Placed (shardOf : IpAddr → Nat) (s : WsState) : Prop :=
  ∀ id p, s.calls.lookup id = some p → AtPoint shardOf id s.shared p

/-- A connection that holds the lock of its shard is alone in what it does there. -/
theorem others_of_locks (hs : Placed shardOf s) (h : s.calls.lookup id = some p)
    (hlocks : p.locks) (hip : p.addr = some ip) :
    (tallyOthers ip id s).entering = 0 ∧ (tallyOthers ip id s).full = 0 := by
  have hp := hs id p h
  have hlock : ∀ other, other ≠ id → s.shared.lock shardOf ip ≠ ⟨[], some other⟩ := by
    intro other hne hother
    cases p <;> cases hlocks <;> cases hip <;> simp_all [AtPoint]
  constructor
  · refine others_eq_zero fun other hne q hq => ?_
    by_contra hentering
    obtain rfl : q = .entered ip := by simpa [SlotPoint.entering] using hentering
    exact hlock other hne (hs other _ hq).1
  · refine others_eq_zero fun other hne q hq => ?_
    by_contra hfull
    cases q with
    | added ip' current =>
      obtain ⟨rfl, -⟩ : ip' = ip ∧ maxWsPerIp ≤ current := by
        simpa [SlotPoint.full] using hfull
      exact hlock other hne (hs other _ hq).1
    | _ => exact hfull rfl

theorem change_step (hs : Placed shardOf s) (h : s.calls.lookup id = some p) :
    SlotChange (OpensCounted () id s.shared p) (tallyOthers ip id s) (s.shared.counts.lookup ip)
      (tally ip s) (((wsMachine shardOf).step s (.step id ())).1.shared.counts.lookup ip)
      (tally ip ((wsMachine shardOf).step s (.step id ())).1) := by
  have htally : tally ip s = (tallyOthers ip id s).add ip p := by
    simp only [tally, tallyOthers, Tally.add, count_eq_others h]
  have hnext : tally ip ((wsMachine shardOf).step s (.step id ())).1 =
      (tallyOthers ip id s).add ip (advanceSlot shardOf id s.shared p).2 := by
    simp only [tally, tallyOthers, Tally.add, count_step (wsMachine shardOf) h]
    rfl
  have hshared : ((wsMachine shardOf).step s (.step id ())).1.shared =
      (advanceSlot shardOf id s.shared p).1 := by
    simp only [Machine.step, h]
    rfl
  rw [htally, hnext, hshared]
  exact advance_change (hs id p h) (others_of_locks hs h)

theorem change_move (hs : Placed shardOf s) (m : Move IpAddr Unit) :
    ∃ n, SlotChange (Permits OpensCounted s m) n (s.shared.counts.lookup ip) (tally ip s)
      (((wsMachine shardOf).step s m).1.shared.counts.lookup ip)
      (tally ip ((wsMachine shardOf).step s m).1) := by
  cases m with
  | call id ip' =>
    cases h : s.calls.lookup id with
    | some p =>
      have hstep : (wsMachine shardOf).step s (.call id ip') = (s, []) := by
        simp only [Machine.step, h]
      rw [hstep]
      exact ⟨tally ip s, .stay _ _⟩
    | none =>
      have htally : tally ip ((wsMachine shardOf).step s (.call id ip')).1 = tally ip s := by
        simp only [tally, count_call (wsMachine shardOf) h]
        rfl
      have hshared : ((wsMachine shardOf).step s (.call id ip')).1.shared = s.shared := by
        simp only [Machine.step, h]
      rw [htally, hshared]
      exact ⟨tally ip s, .stay _ _⟩
  | step id env =>
    cases h : s.calls.lookup id with
    | some p =>
      have hcalm : OpensCounted () id s.shared p ↔ Permits OpensCounted s (.step id env : Move IpAddr Unit) := by
        simp only [Permits, h, Option.some.injEq, forall_eq']
      rw [← hcalm]
      exact ⟨_, change_step hs h⟩
    | none =>
      have hstep : (wsMachine shardOf).step s (.step id env) = (s, []) := by
        simp only [Machine.step, h]
      rw [hstep]
      exact ⟨tally ip s, .stay _ _⟩

theorem placed_step (hs : Placed shardOf s) (m : Move IpAddr Unit) :
    Placed shardOf ((wsMachine shardOf).step s m).1 := by
  have hholds : @Holds _ _ Unit (fun _ _ => True) (fun id t _ p => AtPoint shardOf id t p) s [] :=
    ⟨trivial, hs⟩
  refine (wsOutline.step hholds m ?_).calls
  cases m <;> simp [Permits]

theorem run_sound (ms : List (Move IpAddr Unit)) :
    Placed shardOf (run (wsMachine shardOf).step (.start .new) ms).1 ∧ ∀ ip,
      Sound ((run (wsMachine shardOf).step (.start .new) ms).1.shared.counts.lookup ip)
        (tally ip (run (wsMachine shardOf).step (.start .new) ms).1) := by
  refine @run_invariant _ _ _ (wsMachine shardOf).step
    (fun s _ => Placed shardOf s ∧ ∀ ip, Sound (s.shared.counts.lookup ip) (tally ip s))
    ?_ _ [] ⟨?_, ?_⟩ ms
  · rintro s - m ⟨hplaced, hsound⟩
    refine ⟨placed_step hplaced m, fun ip => ?_⟩
    obtain ⟨n, hchange⟩ := @change_move _ _ ip hplaced m
    exact (hsound ip).change hchange
  · exact fun id p hp => by simp [System.start] at hp
  · exact fun ip _ c hc => by simp [System.start, WsTracker.new] at hc

theorem run_exact {ms : List (Move IpAddr Unit)}
    (hms : Allowed (wsMachine shardOf).step (Permits OpensCounted) (.start .new) ms)
    (ip : IpAddr) : Exact ((run (wsMachine shardOf).step (.start .new) ms).1.shared.counts.lookup ip)
      (tally ip (run (wsMachine shardOf).step (.start .new) ms).1) := by
  refine (run_invariant_of_allowed (wsMachine shardOf).step
    (fun s _ => Placed shardOf s ∧ Exact (s.shared.counts.lookup ip) (tally ip s))
    ?_ ⟨?_, ?_⟩ hms).2
  · rintro s - m ⟨hplaced, hexact⟩ hm
    obtain ⟨n, hchange⟩ := @change_move _ _ ip hplaced m
    exact ⟨placed_step hplaced m, hexact.change hchange hm⟩
  · exact fun id p hp => by simp [System.start] at hp
  · exact ⟨fun _ => ⟨rfl, rfl, rfl, rfl⟩, fun c hc => by simp [System.start, WsTracker.new] at hc,
      fun hpos => absurd hpos (Nat.lt_irrefl 0), Nat.zero_le 5⟩

/-- No guard of the address is live and no call for it is in progress. -/
def Quiet (ip : IpAddr) (s : WsState) : Prop :=
  ∀ id p, s.calls.lookup id = some p → p.addr ≠ some ip

theorem lookup_of_quiet (hsound : Sound (s.shared.counts.lookup ip) (tally ip s))
    (hquiet : Quiet ip s) : s.shared.counts.lookup ip = none := by
  have hnone : ∀ (q : SlotPoint → Bool), (∀ p, p.addr ≠ some ip → q p = false) →
      s.count q = 0 := by
    intro q hq
    simp only [System.count, List.countP_eq_zero, mem_values, Bool.not_eq_true]
    rintro p ⟨id, hp⟩
    exact hq p (hquiet id p hp)
  have hzero : ∀ p : SlotPoint, p.addr ≠ some ip →
      p.entering ip = false ∧ p.full ip = false ∧ p.held ip = false ∧ p.draining ip = false := by
    intro p hp
    cases p <;> simp_all [SlotPoint.addr, SlotPoint.entering, SlotPoint.full, SlotPoint.held,
      SlotPoint.draining]
  cases hc : s.shared.counts.lookup ip with
  | none => rfl
  | some c =>
    have hcount := hsound (hnone _ fun p hp => (hzero p hp).2.2.2) c hc
    dsimp only [tally] at hcount
    rw [hnone _ fun p hp => (hzero p hp).1, hnone _ fun p hp => (hzero p hp).2.1,
      hnone _ fun p hp => (hzero p hp).2.2.1] at hcount
    omega

/-- Where a connection of an address that nobody else uses stands on its way to a slot and from
then on. -/
def Admitted (ip : IpAddr) (count : Option UInt64) : SlotPoint → Prop
  | .acquiring ip' => ip' = ip ∧ count = none
  | .entered ip' => ip' = ip ∧ count = some 0
  | .added _ current => current = 0
  | .refusing _ | .refused => False
  | _ => True

theorem admitted_advance {t : WsTracker} (h : Admitted ip (t.counts.lookup ip) p) :
    Admitted ip ((advanceSlot shardOf id t p).1.counts.lookup ip)
      (advanceSlot shardOf id t p).2 := by
  cases p with
  | acquiring ip' =>
    obtain ⟨rfl, hnone⟩ := h
    simp only [advanceSlot]
    split
    · simp [Admitted, hnone, lookup_setCount]
    · exact ⟨rfl, hnone⟩
  | entered ip' =>
    obtain ⟨rfl, hzero⟩ := h
    simp [advanceSlot, hzero, Admitted]
  | added ip' current =>
    obtain rfl : current = 0 := h
    simp [advanceSlot, Admitted, maxWsPerIp]
  | refusing | refused => exact h.elim
  | live | reading | subtracted | removing | closed =>
    simp only [advanceSlot]
    repeat' split
    all_goals trivial

/-- A connection is on its way to a slot of an address that no other one uses. -/
def Alone (id : CallId) (ip : IpAddr) (s : WsState) : Prop :=
  (∀ other, other ≠ id → ∀ p, s.calls.lookup other = some p → p.addr ≠ some ip) ∧
    ∃ p, s.calls.lookup id = some p ∧ Admitted ip (s.shared.counts.lookup ip) p

def callsFor (ip : IpAddr) : Move IpAddr Unit → Bool
  | .call _ ip' => ip' = ip
  | .step _ _ => false

theorem alone_step (h : Alone id ip s) {m : Move IpAddr Unit} (hm : callsFor ip m = false) :
    Alone id ip ((wsMachine shardOf).step s m).1 := by
  obtain ⟨hothers, p, hp, hadmitted⟩ := h
  cases m with
  | call id' ip' =>
    have hne : ip' ≠ ip := by simpa [callsFor] using hm
    simp only [Machine.step]
    split
    · rename_i hnone
      have hid : id ≠ id' := by
        rintro rfl
        rw [hnone] at hp
        cases hp
      refine ⟨fun other hother q hq => ?_, p, by rw [lookup_insert, if_neg hid, hp], hadmitted⟩
      rw [lookup_insert] at hq
      split at hq
      · cases hq
        exact fun he => hne (Option.some.inj he)
      · exact hothers other hother q hq
    · exact ⟨hothers, p, hp, hadmitted⟩
  | step id' env =>
    simp only [Machine.step]
    split
    · exact ⟨hothers, p, hp, hadmitted⟩
    · rename_i p' hp'
      by_cases hid : id' = id
      · subst hid
        obtain rfl : p' = p := Option.some.inj (hp'.symm.trans hp)
        refine ⟨fun other hother q hq => ?_, (advanceSlot shardOf id' s.shared p').2,
          by rw [lookup_insert, if_pos rfl]; rfl, admitted_advance hadmitted⟩
        rw [lookup_insert, if_neg hother] at hq
        exact hothers other hother q hq
      · have hp'ip := hothers id' hid p' hp'
        have helse : ∀ ip' ∈ p'.addr, ip ≠ ip' := fun ip' hip' he => hp'ip (he ▸ hip')
        refine ⟨fun other hother q hq => ?_, p, ?_, ?_⟩
        · rw [lookup_insert] at hq
          split at hq
          · cases hq
            show (advanceSlot shardOf id' s.shared p').2.addr ≠ some ip
            obtain ha | ha := @addr_advance shardOf s.shared id' p'
            · rwa [ha]
            · simp [ha]
          · exact hothers other hother q hq
        · rw [lookup_insert, if_neg (Ne.symm hid), hp]
        · show Admitted ip ((advanceSlot shardOf id' s.shared p').1.counts.lookup ip) p
          rwa [lookup_elsewhere helse]

theorem alone_run (h : Alone id ip s) {ms : List (Move IpAddr Unit)}
    (hms : ∀ m ∈ ms, callsFor ip m = false) :
    Alone id ip (run (wsMachine shardOf).step s ms).1 := by
  induction ms generalizing s with
  | nil => exact h
  | cons m ms ih =>
    rw [run_cons]
    exact ih (alone_step h (hms m List.mem_cons_self)) fun m' hm' =>
      hms m' (List.mem_cons_of_mem m hm')

/-- A connection that finds the lock of its shard free has its slot three steps later. -/
theorem live_of_free (h : Alone id ip s) (hp : s.calls.lookup id = some (.acquiring ip))
    (hfree : s.shared.lock shardOf ip = .free) :
    (run (wsMachine shardOf).step s (List.replicate 3 (.step id ()))).1.calls.lookup id =
      some (.live ip) := by
  obtain ⟨-, p, hp', hadmitted⟩ := h
  obtain rfl : p = .acquiring ip := Option.some.inj (hp'.symm.trans hp)
  have hnone : s.shared.counts.lookup ip = none := hadmitted.2
  simp [List.replicate, Machine.step, wsMachine, hp, advanceSlot, hfree, hnone,
    lookup_setCount, maxWsPerIp]

end Runs

section Limit

variable (shardOf : IpAddr → Nat)

def WithinLimit (s : WsState) : Prop := ∀ ip, s.count (· = .live ip) ≤ maxWsPerIp.toNat

/-- A new connection of the address is never refused, whatever connections of other addresses do,
and has its slot as soon as it gets at the map. -/
def Succeeds (s : WsState) (id : CallId) (ip : IpAddr) : Prop :=
  ∀ ms : List (Move IpAddr Unit), (∀ m ∈ ms, callsFor ip m = false) →
    let s' := (run (wsMachine shardOf).step s (.call id ip :: ms)).1
    s'.calls.lookup id ≠ some (.refusing ip) ∧ s'.calls.lookup id ≠ some .refused ∧
      (s'.calls.lookup id = some (.acquiring ip) → s'.shared.lock shardOf ip = .free →
        (run (wsMachine shardOf).step s' (List.replicate 3 (.step id ()))).1.calls.lookup id =
          some (.live ip))

def FreesSlots (s : WsState) : Prop :=
  ∀ ip id, Quiet ip s → s.calls.lookup id = none → Succeeds shardOf s id ip

/-- The connections of an address stay within the limit unless one of them opens the entry of the
address between the last guard's decrement and its removal of the entry. Slots are freed always. -/
theorem slots_kept (ms : List (Move IpAddr Unit)) :
    (Allowed (wsMachine shardOf).step (Permits OpensCounted) (.start .new) ms →
      WithinLimit (run (wsMachine shardOf).step (.start .new) ms).1) ∧
    FreesSlots shardOf (run (wsMachine shardOf).step (.start .new) ms).1 := by
  constructor
  · intro hms ip
    have hheld := (run_exact hms ip).bounded
    refine Nat.le_trans (List.countP_mono_left fun p _ hp => ?_) hheld
    obtain rfl : p = .live ip := by simpa using hp
    simp [SlotPoint.held]
  · intro ip id hquiet hfresh ms' hms'
    have hnone := lookup_of_quiet ((run_sound ms).2 ip) hquiet
    have halone : Alone id ip
        ((wsMachine shardOf).step (run (wsMachine shardOf).step (.start .new) ms).1
          (.call id ip)).1 := by
      simp only [Machine.step, hfresh]
      refine ⟨fun other hother p hp => ?_, .acquiring ip, by rw [lookup_insert, if_pos rfl]; rfl,
        rfl, hnone⟩
      rw [lookup_insert, if_neg hother] at hp
      exact hquiet other p hp
    have hrun := @alone_run shardOf _ _ _ halone _ hms'
    obtain ⟨p, hp, hadmitted⟩ := hrun.2
    refine ⟨fun hrefusing => ?_, fun hrefused => ?_, live_of_free hrun⟩
    · obtain rfl := Option.some.inj (hp.symm.trans hrefusing)
      exact hadmitted
    · obtain rfl := Option.some.inj (hp.symm.trans hrefused)
      exact hadmitted

def connect (id : CallId) : List (Move IpAddr Unit) :=
  .call id (.v4 0x7f000001#32) :: List.replicate 3 (.step id ())

theorem slots_kept_twice : WithinLimit (run (wsMachine fun _ => 0).step (.start .new)
    (connect 0 ++ connect 1 ++ List.replicate 3 (.step 0 ()) ++ connect 2)).1 :=
  (slots_kept (fun _ => 0) _).1 (by decide)

/-- The last guard is down at zero when another connection comes, its removal of the entry forgets
that one, and five more come. -/
def reopened : List (Move IpAddr Unit) :=
  connect 0 ++ List.replicate 3 (.step 0 ()) ++ connect 1 ++
    .step 0 () :: (List.range' 2 5).flatMap connect

set_option maxRecDepth 4000 in
theorem six_connections : ¬ ∀ shardOf ms,
    WithinLimit (run (wsMachine shardOf).step (.start .new) ms).1 ∧
      FreesSlots shardOf (run (wsMachine shardOf).step (.start .new) ms).1 := by
  intro h
  exact absurd ((h (fun _ => 0) reopened).1 (.v4 0x7f000001#32)) (by decide)

end Limit

end Clawreform.Api
