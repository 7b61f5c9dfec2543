import Mathlib.Logic.Equiv.Basic
import Clawreform.Lib.Text
import Clawreform.Lib.HashChain

namespace Clawreform.Runtime.Audit

open Clawreform.Lib.Text Clawreform.Lib.HashChain

inductive AuditAction
  | toolInvoke | capabilityCheck | agentSpawn | agentKill | agentMessage | memoryAccess
  | fileAccess | networkAccess | shellExec | authAttempt | wireConnect | configChange
  deriving DecidableEq

def AuditAction.display : AuditAction → Str
  | .toolInvoke => "ToolInvoke".toList
  | .capabilityCheck => "CapabilityCheck".toList
  | .agentSpawn => "AgentSpawn".toList
  | .agentKill => "AgentKill".toList
  | .agentMessage => "AgentMessage".toList
  | .memoryAccess => "MemoryAccess".toList
  | .fileAccess => "FileAccess".toList
  | .networkAccess => "NetworkAccess".toList
  | .shellExec => "ShellExec".toList
  | .authAttempt => "AuthAttempt".toList
  | .wireConnect => "WireConnect".toList
  | .configChange => "ConfigChange".toList

structure AuditEntry where
  seq : Nat
  timestamp : Str
  agentId : Str
  action : AuditAction
  detail : Str
  outcome : Str
  prevHash : Str
  hash : Str
  deriving DecidableEq

/-- The fields of an entry in the order they are fed to the hasher, with nothing
between two of them. -/
def hashedText (seq : Nat) (timestamp agentId : Str) (action : AuditAction)
    (detail outcome prevHash : Str) : Str :=
  Nat.toDigits 10 seq ++ timestamp ++ agentId ++ action.display ++ detail ++ outcome ++ prevHash

structure AuditLog where
  entries : List AuditEntry
  tip : Str

/-- The 64 zero characters that stand before the first entry. -/
def genesis : Str := List.replicate 64 '0'

def AuditLog.new : AuditLog := ⟨[], genesis⟩

/-- One call of `record`, with the time the clock showed. -/
structure RecordCall where
  timestamp : Str
  agentId : Str
  action : AuditAction
  detail : Str
  outcome : Str

variable (sha256 : Str → Str)

/-- The hexadecimal SHA-256 of the hashed text. -/
def computeEntryHash (seq : Nat) (timestamp agentId : Str) (action : AuditAction)
    (detail outcome prevHash : Str) : Str :=
  sha256 (hashedText seq timestamp agentId action detail outcome prevHash)

def AuditLog.record (log : AuditLog) (c : RecordCall) : AuditLog × Str :=
  let seq := log.entries.length
  let prevHash := log.tip
  let hash := computeEntryHash sha256 seq c.timestamp c.agentId c.action c.detail c.outcome prevHash
  (⟨log.entries ++ [⟨seq, c.timestamp, c.agentId, c.action, c.detail, c.outcome, prevHash, hash⟩],
    hash⟩, hash)

def AuditLog.recordAll (log : AuditLog) (calls : List RecordCall) : AuditLog :=
  calls.foldl (fun l c => (l.record sha256 c).1) log

def verifyEntries (expectedPrev : Str) : List AuditEntry → Except Str Unit
  | [] => .ok ()
  | e :: es =>
    if e.prevHash ≠ expectedPrev then
      .error ("chain break at seq ".toList ++ Nat.toDigits 10 e.seq ++ ": expected prev_hash ".toList
        ++ expectedPrev ++ " but found ".toList ++ e.prevHash)
    else
      let recomputed := computeEntryHash sha256 e.seq e.timestamp e.agentId e.action e.detail
        e.outcome e.prevHash
      if recomputed ≠ e.hash then
        .error ("hash mismatch at seq ".toList ++ Nat.toDigits 10 e.seq ++ ": expected ".toList
          ++ recomputed ++ " but found ".toList ++ e.hash)
      else verifyEntries e.hash es

/-- The stored tip is not consulted. -/
def AuditLog.verifyIntegrity (log : AuditLog) : Except Str Unit :=
  verifyEntries sha256 genesis log.entries

/-- An audit entry as a link of a hash chain. -/
def view : View AuditEntry Str Str where
  text e := hashedText e.seq e.timestamp e.agentId e.action e.detail e.outcome e.prevHash
  prev := AuditEntry.prevHash
  hash := AuditEntry.hash

theorem verifyEntries_ok_iff (p : Str) (es : List AuditEntry) :
    verifyEntries sha256 p es = .ok () ↔ Linked view sha256 p es := by
  induction es generalizing p with
  | nil => simp [verifyEntries, Linked]
  | cons e es ih =>
    have hc : computeEntryHash sha256 e.seq e.timestamp e.agentId e.action e.detail e.outcome
        e.prevHash = sha256 (view.text e) := rfl
    have hp : view.prev e = e.prevHash := rfl
    have hh : view.hash e = e.hash := rfl
    simp only [verifyEntries, Linked, hc, hp, hh]
    split
    · next hne => simp [hne]
    · next heq =>
      split
      · next hne => simp [Ne.symm hne]
      · next hrec =>
        rw [not_not] at heq hrec
        rw [ih]
        exact ⟨fun h => ⟨heq, hrec.symm, h⟩, fun h => h.2.2⟩

theorem verifyEntries_error_iff (p : Str) (es : List AuditEntry) :
    (∃ msg, verifyEntries sha256 p es = .error msg) ↔ ¬ Linked view sha256 p es := by
  rw [← verifyEntries_ok_iff]
  cases verifyEntries sha256 p es <;> simp

/-- What every log reached by recording satisfies. -/
structure Sound (log : AuditLog) : Prop where
  linked : Linked view sha256 genesis log.entries
  tip_eq : tip view genesis log.entries = log.tip

theorem sound_new : Sound sha256 AuditLog.new := ⟨trivial, rfl⟩

variable {sha256}

theorem Sound.record {log : AuditLog} (h : Sound sha256 log) (c : RecordCall) :
    Sound sha256 (log.record sha256 c).1 := by
  refine ⟨?_, ?_⟩
  · rw [AuditLog.record, linked_append]
    exact ⟨h.linked, h.tip_eq.symm, rfl, trivial⟩
  · rw [AuditLog.record, tip_append]
    rfl

theorem Sound.recordAll {log : AuditLog} (h : Sound sha256 log) (calls : List RecordCall) :
    Sound sha256 (log.recordAll sha256 calls) := by
  induction calls generalizing log with
  | nil => exact h
  | cons c calls ih => exact ih (h.record c)

/-- Recording leads to a log that verifies, and a list put in place of the
recorded entries is rejected unless it is one of the undetected kind: entries
that agree with a prefix of the recorded ones in both hashes and in the
concatenation of their fields, then entries whose hashes were recomputed. -/
theorem verifyIntegrity_recorded_iff (sha256 : Str → Str) (hsha : Function.Injective sha256)
    (calls : List RecordCall) (tampered : List AuditEntry) :
    (AuditLog.new.recordAll sha256 calls).verifyIntegrity sha256 = .ok () ∧
      ((∃ msg, AuditLog.verifyIntegrity sha256
          { AuditLog.new.recordAll sha256 calls with entries := tampered } = .error msg) ↔
        ¬ Undetected view sha256 genesis (AuditLog.new.recordAll sha256 calls).entries tampered) := by
  have hs := (sound_new sha256).recordAll calls
  refine ⟨(verifyEntries_ok_iff sha256 _ _).mpr hs.linked, ?_⟩
  rw [AuditLog.verifyIntegrity, verifyEntries_error_iff, linked_iff_undetected hsha hs.linked]

def deniedCall : RecordCall :=
  ⟨"2026-01-01T00:00:00+00:00".toList, "agent-1".toList, .shellExec, "ls".toList, "denied".toList⟩

/-- An injective digest that has the value of SHA-256 on the text hashed for
`deniedCall` in an empty log. -/
def swapSha256 : Str ≃ Str :=
  Equiv.swap (hashedText 0 deniedCall.timestamp deniedCall.agentId deniedCall.action
      deniedCall.detail deniedCall.outcome genesis)
    "488fae631dfc7bb0a5ba94786f8c0ab44a12aafd5db51349894765e503a091b2".toList

/-- The entry recorded for `deniedCall` after one letter was moved from its
outcome to its detail. -/
def movedText : AuditEntry :=
  ⟨0, deniedCall.timestamp, deniedCall.agentId, .shellExec, "lsd".toList, "enied".toList, genesis,
    "488fae631dfc7bb0a5ba94786f8c0ab44a12aafd5db51349894765e503a091b2".toList⟩

theorem verifyIntegrity_recorded_iff_moved :
    (AuditLog.new.recordAll swapSha256 [deniedCall]).verifyIntegrity swapSha256 = .ok () ∧
      ((∃ msg, AuditLog.verifyIntegrity swapSha256
          { AuditLog.new.recordAll swapSha256 [deniedCall] with entries := [movedText] } =
            .error msg) ↔
        ¬ Undetected view swapSha256 genesis
          (AuditLog.new.recordAll swapSha256 [deniedCall]).entries [movedText]) :=
  verifyIntegrity_recorded_iff swapSha256 swapSha256.injective [deniedCall] [movedText]

theorem hashedText_movedText : view.text movedText =
    hashedText 0 deniedCall.timestamp deniedCall.agentId deniedCall.action deniedCall.detail
      deniedCall.outcome genesis := by decide

/-- Neither a letter moved between two adjacent fields nor the removal of the
last entry is noticed. -/
theorem verifyIntegrity_misses_tampering :
    Function.Injective swapSha256 ∧
      [movedText] ≠ (AuditLog.new.recordAll swapSha256 [deniedCall]).entries ∧
      AuditLog.verifyIntegrity swapSha256
        { AuditLog.new.recordAll swapSha256 [deniedCall] with entries := [movedText] } = .ok () ∧
      [] ≠ (AuditLog.new.recordAll swapSha256 [deniedCall]).entries ∧
      AuditLog.verifyIntegrity swapSha256
        { AuditLog.new.recordAll swapSha256 [deniedCall] with entries := [] } = .ok () := by
  refine ⟨swapSha256.injective, ?_, ?_, ?_, rfl⟩
  · intro h
    have hd := congrArg (List.map AuditEntry.detail) h
    exact absurd hd (by decide)
  · rw [AuditLog.verifyIntegrity, verifyEntries_ok_iff]
    refine ⟨rfl, ?_, trivial⟩
    rw [hashedText_movedText]
    exact (Equiv.swap_apply_left _ _).symm
  · intro h
    exact absurd (congrArg List.length h) (by decide)

end Clawreform.Runtime.Audit
