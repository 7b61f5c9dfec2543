import Clawreform.Kernel.Cron

namespace Clawreform.Kernel

open Clawreform.Lib.Text Clawreform.Lib.Run Clawreform.Lib.Store Clawreform.Types

section Advance

variable (L : CronLibrary) (now : DateTime) (m : JobMeta)

/-- Nothing but the next run moves. -/
theorem JobMeta.advance_cases :
    m.advance L now = m ∨ ∃ time, computeNextRun L m.job.schedule now = some time ∧
      m.advance L now = { m with job.nextRun := some time } := by
  rw [advance]
  split
  · rename_i time h
    exact .inr ⟨time, h, rfl⟩
  · exact .inl rfl

@[simp] theorem JobMeta.advance_enabled : (m.advance L now).job.enabled = m.job.enabled := by
  rcases m.advance_cases L now with h | ⟨_, _, h⟩ <;> rw [h]

@[simp] theorem JobMeta.advance_schedule : (m.advance L now).job.schedule = m.job.schedule := by
  rcases m.advance_cases L now with h | ⟨_, _, h⟩ <;> rw [h]

@[simp] theorem JobMeta.advance_id : (m.advance L now).job.id = m.job.id := by
  rcases m.advance_cases L now with h | ⟨_, _, h⟩ <;> rw [h]

@[simp] theorem JobMeta.advance_oneShot : (m.advance L now).oneShot = m.oneShot := by
  rcases m.advance_cases L now with h | ⟨_, _, h⟩ <;> rw [h]

@[simp] theorem JobMeta.advance_consecutiveErrors :
    (m.advance L now).consecutiveErrors = m.consecutiveErrors := by
  rcases m.advance_cases L now with h | ⟨_, _, h⟩ <;> rw [h]

end Advance

/-- An enabled job has not failed often enough in a row to be disabled. -/
def JobMeta.Bounded (m : JobMeta) : Prop :=
  m.job.enabled = true → m.consecutiveErrors < maxConsecutiveErrors

instance (m : JobMeta) : Decidable m.Bounded :=
  inferInstanceAs (Decidable (m.job.enabled = true → _))

theorem JobMeta.bounded_of_zero {m : JobMeta} (h : m.consecutiveErrors = 0) : m.Bounded := by
  intro _
  rw [h]
  decide

theorem JobMeta.Bounded.advance {L : CronLibrary} {m : JobMeta} (h : m.Bounded) (now : DateTime) :
    (m.advance L now).Bounded := by
  rw [Bounded, advance_enabled, advance_consecutiveErrors]
  exact h

namespace CronScheduler

variable {L : CronLibrary} {s : CronScheduler}

theorem enable_bounded (enabled : Bool) (now : DateTime) (m : JobMeta) :
    (enable L enabled now m).Bounded := by
  rw [enable]
  split
  · apply JobMeta.Bounded.advance
    exact JobMeta.bounded_of_zero rfl
  · exact fun he => absurd he ‹_›

theorem succeed_bounded (now later : DateTime) (m : JobMeta) : (succeed L now later m).Bounded := by
  have hzero : JobMeta.Bounded { m with
      job.lastRun := some now, lastStatus := some "ok".toList, consecutiveErrors := 0 } :=
    JobMeta.bounded_of_zero rfl
  rw [succeed]
  split
  · exact hzero
  · exact hzero.advance later

theorem fail_bounded {m : JobMeta} (h : m.Bounded) (errorMsg : Str) (now later : DateTime) :
    (fail L errorMsg now later m).Bounded := by
  simp only [fail]
  split
  · exact h
  · split
    · exact fun he => nomatch he
    · rename_i hlt
      apply JobMeta.Bounded.advance
      exact fun _ => UInt32.not_le.mp hlt

def AllBounded (s : CronScheduler) : Prop := ∀ id m, s.jobs.lookup id = some m → m.Bounded

theorem AllBounded.adjust (h : s.AllBounded) {id : CronJobId} {f : JobMeta → JobMeta}
    (hf : ∀ m, m.Bounded → (f m).Bounded) : AllBounded { s with jobs := adjust id f s.jobs } := by
  intro j m hm
  rw [lookup_adjust] at hm
  split at hm
  · obtain ⟨m', hm', rfl⟩ := Option.map_eq_some_iff.mp hm
    exact hf m' (h j m' hm')
  · exact h j m hm

theorem AllBounded.erase (h : s.AllBounded) (id : CronJobId) :
    AllBounded { s with jobs := s.jobs.erase id } := by
  intro j m hm
  rw [lookup_erase] at hm
  split at hm
  · cases hm
  · exact h j m hm

theorem AllBounded.load (h : s.AllBounded) {file : PersistFile}
    (hfile : ∀ metas, file = .metas metas → ∀ m ∈ metas, m.Bounded) :
    (s.load file).1.AllBounded := by
  cases file with
  | missing | unreadable | unparsable => exact h
  | metas metas =>
    intro id m hm
    rcases lookup_insertAll hm with hs | ⟨hmem, -⟩
    · exact h id m hs
    · exact hfile metas rfl m hmem

/-- A rejected or panicking addition changes nothing; an accepted one puts the
job under its id. -/
theorem addJob_cases (L : CronLibrary) (s : CronScheduler) (job : CronJob) (oneShot : Bool)
    (now later : DateTime) :
    ((s.addJob L job oneShot now later).1 = s ∧
      ∀ id, (s.addJob L job oneShot now later).2 ≠ some (.ok id)) ∨
    ∃ time, s.jobs.entries.length < s.maxTotalJobs ∧
      s.countFor job.agentId < maxJobsPerAgent ∧
      s.addJob L job oneShot now later =
        ({ s with jobs := s.jobs.insert job.id (.new { job with nextRun := some time } oneShot) },
          some (.ok job.id)) := by
  rw [addJob]
  split
  · exact .inl ⟨rfl, fun id h => nomatch h⟩
  · rename_i hlen
    split
    · exact .inl ⟨rfl, fun id h => nomatch h⟩
    · rename_i hvalid
      split
      · exact .inl ⟨rfl, fun id h => nomatch h⟩
      · exact .inr ⟨_, Nat.not_le.mp hlen, CronJob.validate_count job hvalid, rfl⟩

theorem AllBounded.addJob (h : s.AllBounded) (job : CronJob) (oneShot : Bool)
    (now later : DateTime) : (s.addJob L job oneShot now later).1.AllBounded := by
  rcases addJob_cases L s job oneShot now later with ⟨heq, -⟩ | ⟨time, -, -, heq⟩
  · rwa [heq]
  · rw [heq]
    intro id m hm
    rw [lookup_insert] at hm
    split at hm
    · cases hm
      exact JobMeta.bounded_of_zero rfl
    · exact h id m hm

theorem AllBounded.dueJobs (h : s.AllBounded) (now : DateTime) (clock : CronJobId → DateTime) :
    (s.dueJobs L now clock).1.AllBounded := by
  intro id m hm
  rw [CronScheduler.dueJobs, lookup_mapValues] at hm
  obtain ⟨m', hm', rfl⟩ := Option.map_eq_some_iff.mp hm
  split
  · exact (h id m' hm').advance _
  · exact h id m' hm'

theorem AllBounded.recordSuccess (h : s.AllBounded) (id : CronJobId) (now later : DateTime) :
    (s.recordSuccess L id now later).AllBounded := by
  have hsucc : AllBounded { s with jobs := Lib.Store.adjust id (succeed L now later) s.jobs } :=
    h.adjust fun m _ => succeed_bounded now later m
  rw [CronScheduler.recordSuccess]
  split
  · split
    · exact hsucc.erase id
    · exact hsucc
  · exact h

/-- A file that is loaded brings no enabled job with too many errors. -/
def Op.LoadsBounded : Op → Prop
  | .load (.metas metas) => ∀ m ∈ metas, m.Bounded
  | _ => True

instance : ∀ op : Op, Decidable op.LoadsBounded
  | .load (.metas metas) => inferInstanceAs (Decidable (∀ m ∈ metas, m.Bounded))
  | .load .missing | .load (.unreadable _) | .load (.unparsable _) | .addJob _ _ _ _
  | .removeJob _ | .setEnabled _ _ _ | .dueJobs _ _ | .recordSuccess _ _ _
  | .recordFailure _ _ _ _ => inferInstanceAs (Decidable True)

theorem AllBounded.step (h : s.AllBounded) {op : Op} (hop : op.LoadsBounded) :
    (step L s op).1.AllBounded := by
  cases op with
  | load file => exact h.load fun metas he => by subst he; exact hop
  | addJob job oneShot now later => exact h.addJob job oneShot now later
  | removeJob id =>
    rw [CronScheduler.step, removeJob]
    split
    · exact h.erase id
    · exact h
  | setEnabled id enabled now =>
    rw [CronScheduler.step, setEnabled]
    split
    · exact h.adjust fun m _ => enable_bounded enabled now m
    · exact h
  | dueJobs now clock => exact h.dueJobs now clock
  | recordSuccess id now later => exact h.recordSuccess id now later
  | recordFailure id errorMsg now later => exact h.adjust fun m hm => fail_bounded hm errorMsg now later

/-- What the scheduler writes is what it may load. -/
theorem persist_loadsBounded (h : s.AllBounded) : (Op.load s.persist).LoadsBounded := by
  intro m hm
  obtain ⟨id, hid⟩ := mem_values.mp hm
  exact h id m hid

/-- The job an operation is about. -/
def Op.target : Op → Option CronJobId
  | .addJob job _ _ _ => some job.id
  | .removeJob id | .setEnabled id _ _ | .recordSuccess id _ _ | .recordFailure id _ _ _ => some id
  | .load _ | .dueJobs _ _ => none

theorem step_frame {op : Op} {id : CronJobId} (hop : op.target = some id) {j : CronJobId}
    (hj : j ≠ id) : (step L s op).1.jobs.lookup j = s.jobs.lookup j := by
  cases op with
  | load | dueJobs => cases hop
  | addJob job oneShot now later =>
    cases hop
    rw [step]
    rcases addJob_cases L s job oneShot now later with ⟨heq, -⟩ | ⟨time, -, -, heq⟩
    · rw [heq]
    · rw [heq, AList.lookup_insert_ne hj]
  | removeJob =>
    cases hop
    rw [step, removeJob]
    split
    · exact AList.lookup_erase_ne hj
    · rfl
  | setEnabled =>
    cases hop
    rw [step, setEnabled]
    split
    · exact lookup_adjust_ne hj _ _
    · rfl
  | recordSuccess =>
    cases hop
    rw [step, recordSuccess]
    split
    · split
      · exact (AList.lookup_erase_ne hj).trans (lookup_adjust_ne hj _ _)
      · exact lookup_adjust_ne hj _ _
    · rfl
  | recordFailure =>
    cases hop
    exact lookup_adjust_ne hj _ _

/-- An accepted job leaves its agent and the store within their limits, and no
other agent with more jobs. -/
theorem addJob_limits {job : CronJob} {oneShot : Bool} {now later : DateTime} {id : CronJobId}
    (h : (s.addJob L job oneShot now later).2 = some (.ok id)) :
    let t := (s.addJob L job oneShot now later).1
    t.countFor job.agentId ≤ maxJobsPerAgent ∧ t.jobs.entries.length ≤ s.maxTotalJobs ∧
    ∀ other, other ≠ job.agentId → t.countFor other ≤ s.countFor other := by
  rcases addJob_cases L s job oneShot now later with ⟨-, hno⟩ | ⟨time, hlen, hcount, heq⟩
  · exact absurd h (hno id)
  · have hsub := values_erase_sublist job.id s.jobs
    rw [heq]
    refine ⟨?_, ?_, ?_⟩
    · rw [countFor, values_insert, List.countP_cons]
      have hle := hsub.countP_le (p := fun m => m.job.agentId = job.agentId)
      rw [countFor] at hcount
      split <;> omega
    · have hle := hsub.length_le
      simp only [values, List.length_map] at hle
      simp only [AList.entries_insert, List.length_cons]
      have : (s.jobs.erase job.id).entries.length = (List.kerase job.id s.jobs.entries).length := rfl
      omega
    · intro other hne
      rw [countFor, values_insert, List.countP_cons_of_neg]
      · exact hsub.countP_le
      · rw [decide_eq_true_eq]
        exact hne.symm

theorem step_maxTotalJobs (op : Op) : (step L s op).1.maxTotalJobs = s.maxTotalJobs := by
  cases op with
  | load file => cases file <;> rfl
  | addJob job oneShot now later =>
    rw [step]
    rcases addJob_cases L s job oneShot now later with ⟨heq, -⟩ | ⟨time, -, -, heq⟩ <;> rw [heq]
  | removeJob id =>
    rw [step, removeJob]
    split <;> rfl
  | setEnabled id enabled now =>
    rw [step, setEnabled]
    split <;> rfl
  | dueJobs | recordFailure => rfl
  | recordSuccess id now later =>
    rw [step, recordSuccess]
    split
    · split <;> rfl
    · rfl

/-- After every run of operations, as long as the loaded files hold no enabled
job with too many errors, no enabled job has too many errors, the limits of
additions hold, and no operation on a job touches another. -/
theorem run_limits (L : CronLibrary) (maxTotalJobs : Nat) (ops : List Op)
    (hops : ∀ op ∈ ops, op.LoadsBounded) :
    let s := (run (step L) (new maxTotalJobs) ops).1
    (∀ id m, s.jobs.lookup id = some m → m.job.enabled = true →
      m.consecutiveErrors < maxConsecutiveErrors) ∧
    (∀ job oneShot now later id, (s.addJob L job oneShot now later).2 = some (.ok id) →
      let t := (s.addJob L job oneShot now later).1
      t.countFor job.agentId ≤ maxJobsPerAgent ∧ t.jobs.entries.length ≤ maxTotalJobs ∧
      ∀ other, other ≠ job.agentId → t.countFor other ≤ s.countFor other) ∧
    (∀ job oneShot now later error, (s.addJob L job oneShot now later).2 = some (.error error) →
      (s.addJob L job oneShot now later).1 = s) ∧
    ∀ op id, op.target = some id → ∀ j, j ≠ id →
      (step L s op).1.jobs.lookup j = s.jobs.lookup j := by
  intro s
  obtain ⟨hb, hmax⟩ : s.AllBounded ∧ s.maxTotalJobs = maxTotalJobs := by
    refine run_invariant_of_allowed (step L)
      (fun s _ => s.AllBounded ∧ s.maxTotalJobs = maxTotalJobs) ?_ ?_
      (allowed_of_forall (step L) hops)
    · rintro s _ op ⟨hb, hmax⟩ hop
      exact ⟨hb.step hop, (step_maxTotalJobs op).trans hmax⟩
    · exact ⟨fun id m hm => by simp [new] at hm, rfl⟩
  refine ⟨hb, ?_, ?_, fun op id hop j hj => step_frame hop hj⟩
  · intro job oneShot now later id hid
    have h := addJob_limits hid
    rw [hmax] at h
    exact h
  · intro job oneShot now later error herr
    rcases addJob_cases L s job oneShot now later with ⟨heq, -⟩ | ⟨time, -, -, heq⟩
    · exact heq
    · rw [heq] at herr
      cases herr

/-- ASCII letters, and no expression that parses. -/
def plainLibrary : CronLibrary where
  isAlphanumeric := Char.isAlphanum
  upcoming _ := none

def reminder (id : CronJobId) (schedule : CronSchedule) : CronJob where
  id := id
  agentId := 7
  name := "reminder".toList
  enabled := true
  schedule := schedule
  action := .systemEvent "ping".toList
  delivery := .none
  createdAt := 0
  lastRun := none
  nextRun := none

/-- A job that fails five times and is enabled again. -/
def failing : List Op :=
  .addJob (reminder 1 (.every 60)) false 0 0 ::
    List.replicate 5 (.recordFailure 1 "timed out".toList 0 0) ++ [.setEnabled 1 true 0]

theorem run_limits_failing :
    (∀ op ∈ failing, op.LoadsBounded) ∧
    ∀ id m, (run (step plainLibrary) (new 500) failing).1.jobs.lookup id = some m →
      m.job.enabled = true → m.consecutiveErrors < maxConsecutiveErrors :=
  ⟨by decide, (run_limits plainLibrary 500 failing (by decide)).1⟩

/-- A file with an enabled job that has failed five times. -/
def staleFile : PersistFile := .metas [⟨reminder 1 (.every 60), false, none, 5⟩]

theorem load_unbounded :
    ¬ ∀ id m, (run (step plainLibrary) (new 500) [.load staleFile]).1.jobs.lookup id = some m →
      m.job.enabled = true → m.consecutiveErrors < maxConsecutiveErrors := by
  intro h
  exact absurd (h 1 _ rfl rfl) (by decide)

end CronScheduler

end Clawreform.Kernel
