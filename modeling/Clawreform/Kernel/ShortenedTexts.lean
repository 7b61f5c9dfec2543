import Clawreform.Kernel.CronRuns
import Clawreform.Kernel.Triggers
import Clawreform.Lib.Slices

namespace Clawreform.Kernel.ShortenedTexts

open Clawreform.Lib.Text Clawreform.Lib.Store Clawreform.Lib.Slices Clawreform.Types
open CronScheduler TriggerEngine

section Cut

variable {s : Str} {n : Nat}

/-- A text can be shortened to a number of bytes: it has no more, or a character ends there. -/
def Cuttable (n : Nat) (s : Str) : Prop := byteLen s ≤ n ∨ ∃ a b, s = a ++ b ∧ byteLen a = n

theorem isSome_cut_iff : (splitBytes (min (byteLen s) n) s).isSome ↔ Cuttable n s := by
  rw [isSome_splitBytes_iff]
  obtain hle | hlt := le_or_gt (byteLen s) n
  · rw [Nat.min_eq_left hle]
    exact iff_of_true ⟨s, [], (List.append_nil s).symm, rfl⟩ (.inl hle)
  · rw [Nat.min_eq_right hlt.le]
    exact (or_iff_right (Nat.not_le.mpr hlt)).symm

/-- A text with a character of two bytes behind a number of plain characters. -/
def straddling (n : Nat) : Str := List.replicate n 'a' ++ ['é']

theorem splitBytes_straddling (n : Nat) : splitBytes (n + 1) (straddling n) = none := by
  induction n with
  | zero => rfl
  | succ n ih =>
    have hsize : 'a'.utf8Size = 1 := rfl
    rw [straddling, List.replicate_succ, List.cons_append, splitBytes, hsize,
      if_pos (Nat.le_add_left 1 _), Nat.add_sub_cancel]
    exact congrArg (Option.map _) ih

theorem cut_straddling (n : Nat) :
    splitBytes (min (byteLen (straddling n)) (n + 1)) (straddling n) = none := by
  have hlen : byteLen (straddling n) = n + 2 := by
    rw [straddling, byteLen_append, byteLen_replicate]
    exact congrArg (· + 2) (Nat.mul_one n)
  rw [hlen, Nat.min_eq_right (Nat.le_succ _), splitBytes_straddling]

end Cut

section Failure

variable (L : CronLibrary) (s : CronScheduler)

/-- Whether the failure of a stored job is recorded to the end: the text is cut, and the next
run computed unless the job is disabled. -/
def failReturns (errorMsg : Str) (later : DateTime) (m : JobMeta) : Option Unit := do
  let _ ← splitBytes (min (byteLen errorMsg) 256) errorMsg
  if maxConsecutiveErrors ≤ m.consecutiveErrors + 1 then pure ()
  else do
    let _ ← computeNextRun L m.job.schedule later
    pure ()

/-- The scheduler a call leaves, and nothing else when the call panics. -/
def recordFailureCall (id : CronJobId) (errorMsg : Str) (now later : DateTime) :
    CronScheduler × Option Unit :=
  (s.recordFailure L id errorMsg now later,
    match s.jobs.lookup id with
    | some m => failReturns L errorMsg later m
    | none => some ())

/-- The call returns, and the job has one more error. -/
structure FailureRecorded (id : CronJobId) (errorMsg : Str) (now later : DateTime) : Prop where
  returns : (recordFailureCall L s id errorMsg now later).2 = some ()
  counted : ∀ m, s.jobs.lookup id = some m → ∃ m',
    (recordFailureCall L s id errorMsg now later).1.jobs.lookup id = some m' ∧
      m'.consecutiveErrors = m.consecutiveErrors + 1

/-- The text can be cut, and the next run of a job that stays enabled computed. -/
def Recordable (id : CronJobId) (errorMsg : Str) (later : DateTime) : Prop :=
  ∀ m, s.jobs.lookup id = some m → Cuttable 256 errorMsg ∧
    (maxConsecutiveErrors ≤ m.consecutiveErrors + 1 ∨
      (computeNextRun L m.job.schedule later).isSome)

variable {L s}

theorem failReturns_iff {errorMsg : Str} {later : DateTime} {m : JobMeta} :
    failReturns L errorMsg later m = some () ↔ Cuttable 256 errorMsg ∧
      (maxConsecutiveErrors ≤ m.consecutiveErrors + 1 ∨
        (computeNextRun L m.job.schedule later).isSome) := by
  rw [← isSome_cut_iff, failReturns]
  cases splitBytes (min (byteLen errorMsg) 256) errorMsg with
  | none => simp
  | some p =>
    by_cases hdisabled : maxConsecutiveErrors ≤ m.consecutiveErrors + 1
    · simp [hdisabled]
    · cases computeNextRun L m.job.schedule later <;> simp [hdisabled]

/-- Once the text is cut, the error is counted. -/
theorem fail_counts {errorMsg : Str} {now later : DateTime} {m : JobMeta}
    (h : Cuttable 256 errorMsg) :
    (fail L errorMsg now later m).consecutiveErrors = m.consecutiveErrors + 1 := by
  obtain ⟨⟨cut, rest⟩, hcut⟩ := Option.isSome_iff_exists.mp (isSome_cut_iff.mpr h)
  unfold fail
  rw [hcut]
  dsimp only
  split
  · rfl
  · unfold JobMeta.advance
    split <;> rfl

theorem failureRecorded_iff {id : CronJobId} {errorMsg : Str} {now later : DateTime} :
    FailureRecorded L s id errorMsg now later ↔ Recordable L s id errorMsg later := by
  constructor
  · intro h m hm
    have hreturns := h.returns
    rw [recordFailureCall, hm] at hreturns
    exact failReturns_iff.mp hreturns
  · intro h
    refine ⟨?_, fun m hm => ⟨fail L errorMsg now later m, ?_, fail_counts (h m hm).1⟩⟩
    · rw [recordFailureCall]
      cases hm : s.jobs.lookup id with
      | none => rfl
      | some m => exact failReturns_iff.mpr (h m hm)
    · rw [recordFailureCall, recordFailure, lookup_adjust_self, hm, Option.map_some]

end Failure

section Description

/-- The result of a tool can be cut. -/
def Describable (event : Event) : Prop :=
  match event.payload with
  | .toolResult tr => Cuttable 200 tr.content
  | .message _ | .memoryUpdate _ | .lifecycle _ | .network _ | .system _ | .custom _ => True

theorem describeEvent_isSome_iff (R : Rendering) (event : Event) :
    (R.describeEvent event).isSome ↔ Describable event := by
  unfold Rendering.describeEvent Describable
  cases event.payload with
  | toolResult tr => rw [Option.isSome_map, isSome_cut_iff]
  | message | memoryUpdate | lifecycle | network | system | custom => simp

end Description

/-- A failure is recorded, and an event described, whenever the cut of the text does not fall
inside a character. -/
theorem recordFailure_describeEvent_return_iff (L : CronLibrary) (R : Rendering)
    (s : CronScheduler) (id : CronJobId) (errorMsg : Str) (now later : DateTime) (event : Event) :
    (FailureRecorded L s id errorMsg now later ↔ Recordable L s id errorMsg later) ∧
      ((R.describeEvent event).isSome ↔ Describable event) :=
  ⟨failureRecorded_iff, describeEvent_isSome_iff R event⟩

/-- A scheduler with one job that repeats. -/
def repeating : CronScheduler where
  jobs := AList.singleton 1 (.new (reminder 1 (.every 60)) false)
  maxTotalJobs := 500

/-- Neither function returns where a character of two bytes stands across the cut, and the
error is not counted. -/
theorem recordFailure_describeEvent_panic :
    (recordFailureCall plainLibrary repeating 1 (straddling 255) 0 0).2 = none ∧
    ((recordFailureCall plainLibrary repeating 1 (straddling 255) 0 0).1.jobs.lookup 1).map
      (·.consecutiveErrors) = some 0 ∧
    plainRendering.describeEvent ⟨.toolResult ⟨['t'], straddling 199, true, 7⟩⟩ = none ∧
    ¬ ∀ (L : CronLibrary) (R : Rendering) (s : CronScheduler) (id : CronJobId) (errorMsg : Str)
        (now later : DateTime) (event : Event),
      FailureRecorded L s id errorMsg now later ∧ (R.describeEvent event).isSome := by
  have hjob : repeating.jobs.lookup 1 = some (.new (reminder 1 (.every 60)) false) := rfl
  have hcut : splitBytes (min (byteLen (straddling 255)) 256) (straddling 255) = none :=
    cut_straddling 255
  have hresult : splitBytes (min (byteLen (straddling 199)) 200) (straddling 199) = none :=
    cut_straddling 199
  have hcall : (recordFailureCall plainLibrary repeating 1 (straddling 255) 0 0).2 = none := by
    rw [recordFailureCall, hjob]
    simp only [failReturns, hcut, Option.bind_eq_bind, Option.bind_none]
  refine ⟨hcall, ?_, ?_, fun h => ?_⟩
  · rw [recordFailureCall, recordFailure, lookup_adjust_self, hjob, Option.map_some]
    simp only [fail, hcut]
    rfl
  · simp only [Rendering.describeEvent, hresult, Option.map_none]
  · have hreturns := (h plainLibrary plainRendering repeating 1 (straddling 255) 0 0
      ⟨.system .kernelStarted⟩).1.returns
    rw [hcall] at hreturns
    cases hreturns

end Clawreform.Kernel.ShortenedTexts
