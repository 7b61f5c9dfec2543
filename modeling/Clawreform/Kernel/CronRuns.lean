import Clawreform.Kernel.CronStore

namespace Clawreform.Kernel

open Clawreform.Lib.Text Clawreform.Lib.Run Clawreform.Lib.Store Clawreform.Types

/-- The cron library looks ahead. -/
def CronLibrary.Forward (L : CronLibrary) : Prop :=
  ∀ expr next now time, L.upcoming expr = some next → next now = some time → now < time

def isAt : CronSchedule → Bool
  | .at _ => true
  | .every _ | .cron _ _ => false

/-- Repeated after some time, and not after none or a negative one. -/
def Spaced : CronSchedule → Prop
  | .every everySecs => 0 < asI64 everySecs
  | .at _ | .cron _ _ => True

instance : ∀ schedule : CronSchedule, Decidable (Spaced schedule)
  | .every everySecs => inferInstanceAs (Decidable (0 < asI64 everySecs))
  | .at _ | .cron _ _ => inferInstanceAs (Decidable True)

theorem addDuration_gt {now time : DateTime} {duration : Int} (h : addDuration now duration = some time)
    (hpos : 0 < duration) : now < time := by
  rw [addDuration] at h
  split at h
  · cases h
    exact Int.lt_add_of_pos_right now hpos
  · cases h

/-- A recurring job is next due after the moment it is computed. -/
theorem computeNextRun_gt {L : CronLibrary} (hL : L.Forward) {schedule : CronSchedule}
    (hat : isAt schedule = false) (hspaced : Spaced schedule) {now time : DateTime}
    (h : computeNextRun L schedule now = some time) : now < time := by
  cases schedule with
  | «at» => cases hat
  | every everySecs =>
    obtain ⟨duration, hd, ht⟩ := Option.bind_eq_some_iff.mp h
    apply addDuration_gt ht
    rw [durationSeconds] at hd
    split at hd
    · cases hd
      exact Int.mul_pos hspaced (by decide)
    · cases hd
  | cron expr tz =>
    have hhour : ∀ t, addDuration now hour = some t → now < t :=
      fun t ht => addDuration_gt ht (by decide)
    simp only [computeNextRun] at h
    split at h
    · rename_i next hnext
      cases hn : next now with
      | none =>
        rw [hn] at h
        exact hhour time h
      | some t =>
        rw [hn] at h
        cases h
        exact hL _ next now _ hnext hn
    · exact hhour time h

namespace CronScheduler

variable {L : CronLibrary} {s : CronScheduler}

def Keyed (s : CronScheduler) : Prop := ∀ id m, s.jobs.lookup id = some m → m.job.id = id

@[simp] theorem enable_id (enabled : Bool) (now : DateTime) (m : JobMeta) :
    (enable L enabled now m).job.id = m.job.id := by
  rw [enable]
  split <;> simp

@[simp] theorem succeed_job (now later : DateTime) (m : JobMeta) :
    (succeed L now later m).job.id = m.job.id ∧
    (succeed L now later m).job.schedule = m.job.schedule ∧
    (succeed L now later m).job.enabled = m.job.enabled := by
  rw [succeed]
  split <;> simp

@[simp] theorem fail_job (errorMsg : Str) (now later : DateTime) (m : JobMeta) :
    (fail L errorMsg now later m).job.id = m.job.id ∧
    (fail L errorMsg now later m).job.schedule = m.job.schedule := by
  simp only [fail]
  split
  · exact ⟨rfl, rfl⟩
  · split <;> simp

theorem Keyed.adjust (h : s.Keyed) {id : CronJobId} {f : JobMeta → JobMeta}
    (hf : ∀ m, (f m).job.id = m.job.id) : Keyed { s with jobs := adjust id f s.jobs } := by
  intro j m hm
  rw [lookup_adjust] at hm
  split at hm
  · obtain ⟨m', hm', rfl⟩ := Option.map_eq_some_iff.mp hm
    rw [hf, h j m' hm']
  · exact h j m hm

theorem Keyed.erase (h : s.Keyed) (id : CronJobId) : Keyed { s with jobs := s.jobs.erase id } := by
  intro j m hm
  rw [lookup_erase] at hm
  split at hm
  · cases hm
  · exact h j m hm

theorem Keyed.step (h : s.Keyed) (op : Op) : (step L s op).1.Keyed := by
  cases op with
  | load file =>
    cases file with
    | missing | unreadable | unparsable => exact h
    | metas metas =>
      intro id m hm
      rcases lookup_insertAll hm with hs | ⟨-, hk⟩
      · exact h id m hs
      · exact hk
  | addJob job oneShot now later =>
    rw [CronScheduler.step]
    rcases addJob_cases L s job oneShot now later with ⟨heq, -⟩ | ⟨time, -, -, heq⟩
    · rwa [heq]
    · rw [heq]
      intro id m hm
      rw [lookup_insert] at hm
      split at hm
      · rename_i hid
        cases hm
        exact hid.symm
      · exact h id m hm
  | removeJob id =>
    rw [CronScheduler.step, removeJob]
    split
    · exact h.erase id
    · exact h
  | setEnabled id enabled now =>
    rw [CronScheduler.step, setEnabled]
    split
    · exact h.adjust (enable_id enabled now)
    · exact h
  | dueJobs now clock =>
    intro id m hm
    rw [CronScheduler.step, dueJobs, lookup_mapValues] at hm
    obtain ⟨m', hm', rfl⟩ := Option.map_eq_some_iff.mp hm
    split
    · rw [JobMeta.advance_id, h id m' hm']
    · exact h id m' hm'
  | recordSuccess id now later =>
    have hsucc : Keyed { s with jobs := Lib.Store.adjust id (succeed L now later) s.jobs } :=
      h.adjust fun m => (succeed_job now later m).1
    rw [CronScheduler.step, recordSuccess]
    split
    · split
      · exact hsucc.erase id
      · exact hsucc
    · exact h
  | recordFailure id errorMsg now later => exact h.adjust fun m => (fail_job errorMsg now later m).1

theorem run_keyed (maxTotalJobs : Nat) (ops : List Op) :
    (run (step L) (new maxTotalJobs) ops).1.Keyed := by
  refine run_invariant_of_allowed (step L) (fun s _ => s.Keyed) (fun _ _ op h _ => h.step op) ?_
    (allowed_of_forall (step L) fun _ _ => trivial)
  intro id m hm
  simp [new] at hm

/-- A tick or an outcome, with clock readings from `T` on. -/
def Op.ReadsFrom (T : DateTime) : Op → Prop
  | .dueJobs now clock => T ≤ now ∧ ∀ id, now ≤ clock id
  | .recordSuccess _ now later | .recordFailure _ _ now later => T ≤ now ∧ now ≤ later
  | .load _ | .addJob _ _ _ _ | .removeJob _ | .setEnabled _ _ _ => False

/-- When an operation begins. -/
def Op.begins : Op → DateTime
  | .dueJobs now _ | .recordSuccess _ now _ | .recordFailure _ _ now _ => now
  | .addJob _ _ now _ | .setEnabled _ _ now => now
  | .load _ | .removeJob _ => 0

/-- Ticks and outcomes at times that do not decrease. -/
def Chronological : DateTime → List Op → Prop
  | _, [] => True
  | T, op :: ops => op.ReadsFrom T ∧ Chronological op.begins ops

/-- The outcome ends a job that runs at one time: the success of a one-shot job, or
the failure that disables the job. -/
def settles (s : CronScheduler) (id : CronJobId) : Op → Bool
  | .recordSuccess target _ _ => id = target && (s.jobs.lookup id).any (·.oneShot)
  | .recordFailure target errorMsg _ _ =>
    id = target && (splitBytes (min (byteLen errorMsg) 256) errorMsg).isSome &&
      (s.jobs.lookup id).any fun m => maxConsecutiveErrors ≤ m.consecutiveErrors + 1
  | .load _ | .addJob _ _ _ _ | .removeJob _ | .setEnabled _ _ _ | .dueJobs _ _ => false

def Op.isTick : Op → Bool
  | .dueJobs _ _ => true
  | .load _ | .addJob _ _ _ _ | .removeJob _ | .setEnabled _ _ _ | .recordSuccess _ _ _
  | .recordFailure _ _ _ _ => false

/-- The jobs that run at one time, were returned by the last tick and are not settled. -/
def awaited (L : CronLibrary) (s : CronScheduler) (pending : List CronJobId) (op : Op) :
    List CronJobId :=
  if op.isTick then ((step L s op).2.filter (isAt ·.schedule)).map (·.id)
  else pending.filter fun id => !settles s id op

/-- Every job that runs at one time is settled before the tick after the one that
returned it. -/
def Prompt (L : CronLibrary) : CronScheduler → List CronJobId → List Op → Prop
  | _, _, [] => True
  | s, pending, op :: ops =>
    (op.isTick = true → pending = []) ∧ Prompt L (step L s op).1 (awaited L s pending op) ops

/-- What holds of the store, of the jobs waited for and of the jobs returned so far
at any moment `T` of a run. -/
structure Fired (s : CronScheduler) (pending : List CronJobId) (T : DateTime)
    (returned : List CronJob) : Prop where
  keyed : s.Keyed
  spaced : ∀ id m, s.jobs.lookup id = some m → Spaced m.job.schedule
  same : ∀ j ∈ returned, ∀ m, s.jobs.lookup j.id = some m → m.job.schedule = j.schedule
  waiting : ∀ j ∈ returned, isAt j.schedule = true → ∀ m, s.jobs.lookup j.id = some m →
    m.job.enabled = true → j.id ∈ pending
  past : ∀ j ∈ returned, ∀ time, j.nextRun = some time → time ≤ T
  ahead : ∀ j ∈ returned, isAt j.schedule = false → ∀ m, s.jobs.lookup j.id = some m →
    ∀ time next, j.nextRun = some time → m.job.nextRun = some next → time < next
  once : ∀ id, returned.countP (fun j => j.id = id ∧ isAt j.schedule) ≤ 1
  distinct : ∀ id, ((returned.filter fun j => j.id = id ∧ ¬ isAt j.schedule).map
    (·.nextRun)).Nodup

/-- What a tick or an outcome may make of a job: it stays disabled if it was, keeps its
schedule, and its next run is as before or computed at `r`. -/
def Moves (L : CronLibrary) (r : DateTime) (m m' : JobMeta) : Prop :=
  m'.job.schedule = m.job.schedule ∧ (m'.job.enabled = true → m.job.enabled = true) ∧
  (m'.job.nextRun = m.job.nextRun ∨
    ∃ time, computeNextRun L m.job.schedule r = some time ∧ m'.job.nextRun = some time)

theorem moves_self (r : DateTime) (m : JobMeta) : Moves L r m m := ⟨rfl, id, .inl rfl⟩

theorem moves_advance (r : DateTime) (m : JobMeta) : Moves L r m (m.advance L r) := by
  rcases m.advance_cases L r with h | ⟨time, ht, h⟩ <;> rw [h]
  · exact moves_self r m
  · exact ⟨rfl, id, .inr ⟨time, ht, rfl⟩⟩

theorem moves_succeed (now later : DateTime) (m : JobMeta) :
    Moves L later m (succeed L now later m) := by
  rw [succeed]
  split
  · exact ⟨rfl, id, .inl rfl⟩
  · exact moves_advance later _

theorem moves_fail (errorMsg : Str) (now later : DateTime) (m : JobMeta) :
    Moves L later m (fail L errorMsg now later m) := by
  simp only [fail]
  split
  · exact ⟨rfl, id, .inl rfl⟩
  · split
    · exact ⟨rfl, fun h => absurd h Bool.false_ne_true, .inl rfl⟩
    · exact moves_advance later _

theorem lookup_of_adjust {id j : CronJobId} {f : JobMeta → JobMeta} {jobs : Map CronJobId JobMeta}
    {m' : JobMeta} (h : (adjust id f jobs).lookup j = some m') :
    ∃ m, jobs.lookup j = some m ∧ (m' = m ∨ m' = f m) := by
  rw [lookup_adjust] at h
  split at h
  · obtain ⟨m, hm, rfl⟩ := Option.map_eq_some_iff.mp h
    exact ⟨m, hm, .inr rfl⟩
  · exact ⟨m', h, .inl rfl⟩

/-- What a tick or an outcome leaves under a key was there before. -/
theorem step_lookup {T : DateTime} {op : Op} (hop : op.ReadsFrom T) {id : CronJobId} {m' : JobMeta}
    (h : (step L s op).1.jobs.lookup id = some m') :
    ∃ m r, s.jobs.lookup id = some m ∧ op.begins ≤ r ∧ Moves L r m m' := by
  cases op with
  | load | addJob | removeJob | setEnabled => exact hop.elim
  | dueJobs now clock =>
    rw [step, dueJobs, lookup_mapValues] at h
    obtain ⟨m, hm, rfl⟩ := Option.map_eq_some_iff.mp h
    refine ⟨m, clock id, hm, hop.2 id, ?_⟩
    split
    · exact moves_advance _ m
    · exact moves_self _ m
  | recordSuccess target now later =>
    have hleft : (adjust target (succeed L now later) s.jobs).lookup id = some m' →
        ∃ m r, s.jobs.lookup id = some m ∧ now ≤ r ∧ Moves L r m m' := by
      intro ha
      obtain ⟨m, hm, rfl | rfl⟩ := lookup_of_adjust ha
      · exact ⟨m', later, hm, hop.2, moves_self _ m'⟩
      · exact ⟨m, later, hm, hop.2, moves_succeed now later m⟩
    rw [step, recordSuccess] at h
    split at h
    · split at h
      · rw [lookup_erase] at h
        split at h
        · cases h
        · exact hleft h
      · exact hleft h
    · exact ⟨m', later, h, hop.2, moves_self _ m'⟩
  | recordFailure target errorMsg now later =>
    obtain ⟨m, hm, rfl | rfl⟩ := lookup_of_adjust h
    · exact ⟨m', later, hm, hop.2, moves_self _ m'⟩
    · exact ⟨m, later, hm, hop.2, moves_fail errorMsg now later m⟩

/-- A job that an outcome settles is gone or disabled; one left enabled is not settled. -/
theorem not_settles {T : DateTime} {op : Op} (hop : op.ReadsFrom T) {id : CronJobId} {m' : JobMeta}
    (h : (step L s op).1.jobs.lookup id = some m') (hen : m'.job.enabled = true) :
    settles s id op = false := by
  cases op with
  | load | addJob | removeJob | setEnabled => exact hop.elim
  | dueJobs => rfl
  | recordSuccess target now later =>
    rw [settles]
    by_cases hid : id = target
    · subst hid
      rw [step, recordSuccess] at h
      split at h
      · rename_i m hm
        split at h
        · simp at h
        · rename_i hone
          simp [hm, hone]
      · rename_i hm
        simp [hm]
    · simp [hid]
  | recordFailure target errorMsg now later =>
    rw [settles]
    by_cases hid : id = target
    · subst hid
      rw [step, recordFailure, lookup_adjust_self] at h
      obtain ⟨m, hm, rfl⟩ := Option.map_eq_some_iff.mp h
      simp only [fail] at hen
      split at hen
      · rename_i hcut
        simp [hcut]
      · split at hen
        · cases hen
        · rename_i hlt
          simp [hm, hlt]
    · simp [hid]

section Tick

variable {now : DateTime} {clock : CronJobId → DateTime}

/-- The jobs a tick returns. -/
def due (L : CronLibrary) (s : CronScheduler) (now : DateTime) (clock : CronJobId → DateTime) :
    List CronJob :=
  (s.dueJobs L now clock).2.getD []

/-- A tick returns something only when it has passed every job. -/
theorem due_cases (L : CronLibrary) (s : CronScheduler) (now : DateTime)
    (clock : CronJobId → DateTime) :
    s.due L now clock = [] ∨
    s.due L now clock = ((values s.jobs).filter (JobMeta.isDue now)).map (·.job) ∧
      ∀ id m, s.jobs.lookup id = some m → m.isDue now = true →
        id ∈ s.passed L now clock ∧ (computeNextRun L m.job.schedule (clock id)).isSome := by
  rw [due, dueJobs]
  split
  · rename_i hlen
    right
    refine ⟨rfl, ?_⟩
    rw [passed, List.length_map] at hlen
    have hall := (List.takeWhile_prefix _).eq_of_length hlen
    intro id m hm hdue
    have hmem : (⟨id, m⟩ : (_ : CronJobId) × JobMeta) ∈ s.jobs.entries := mem_entries.mpr hm
    refine ⟨?_, ?_⟩
    · rw [passed, hall]
      exact List.mem_map_of_mem hmem
    · have h := List.takeWhile_eq_self_iff.mp hall _ hmem
      simpa [hdue, Option.isSome_iff_ne_none] using h
  · exact .inl rfl

/-- A returned job was due, and its next run has been computed. -/
theorem mem_due (hkeyed : s.Keyed) {j : CronJob} (hj : j ∈ s.due L now clock) :
    ∃ m time next, s.jobs.lookup j.id = some m ∧ m.job = j ∧ m.job.enabled = true ∧
      j.nextRun = some time ∧ time ≤ now ∧ computeNextRun L j.schedule (clock j.id) = some next ∧
      (step L s (.dueJobs now clock)).1.jobs.lookup j.id =
        some { m with job.nextRun := some next } := by
  rcases due_cases L s now clock with he | ⟨he, hall⟩ <;> rw [he] at hj
  · cases hj
  · obtain ⟨m, hm, rfl⟩ := List.mem_map.mp hj
    obtain ⟨hmem, hdue⟩ := List.mem_filter.mp hm
    obtain ⟨id, hid⟩ := mem_values.mp hmem
    obtain rfl := hkeyed id m hid
    obtain ⟨hpassed, hsome⟩ := hall _ m hid hdue
    obtain ⟨next, hnext⟩ := Option.isSome_iff_exists.mp hsome
    have hboth : m.job.enabled = true ∧ m.job.nextRun.any (· ≤ now) = true := by
      simpa [JobMeta.isDue] using hdue
    obtain ⟨time, htime, hle⟩ := (Option.any_eq_true _ _).mp hboth.2
    refine ⟨m, time, next, hid, rfl, hboth.1, htime, of_decide_eq_true hle, hnext, ?_⟩
    rw [step, dueJobs, lookup_mapValues, hid, Option.map_some, if_pos ⟨hpassed, hdue⟩,
      JobMeta.advance, hnext]

/-- A tick returns no job twice. -/
theorem due_filter_length (L : CronLibrary) (now : DateTime) (clock : CronJobId → DateTime)
    (hkeyed : s.Keyed) (id : CronJobId) :
    ((s.due L now clock).filter fun j => j.id = id).length ≤ 1 := by
  rcases due_cases L s now clock with he | ⟨he, -⟩ <;> rw [he]
  · exact Nat.zero_le 1
  · rw [List.filter_map, List.length_map, List.filter_comm]
    calc _ ≤ ((values s.jobs).filter fun m => m.job.id = id).length :=
        (List.filter_sublist).length_le
      _ = (s.jobs.lookup id).toList.length := by rw [filter_values hkeyed id]
      _ ≤ 1 := Option.length_toList_le

end Tick

section Step

theorem nodup_of_length_le_one {α : Type} : ∀ {l : List α}, l.length ≤ 1 → l.Nodup
  | [], _ => List.nodup_nil
  | [a], _ => List.nodup_singleton a
  | _ :: _ :: _, h => absurd h (by simp)

variable {pending : List CronJobId} {T : DateTime} {returned : List CronJob}

/-- A tick or an outcome keeps what is known of the jobs returned before it. -/
theorem Fired.move (h : Fired s pending T returned) (hL : L.Forward) {op : Op}
    (hop : op.ReadsFrom T) (hT : T ≤ op.begins) {pending' : List CronJobId}
    (hpending : ∀ id ∈ pending, settles s id op = false → id ∈ pending') :
    Fired (step L s op).1 pending' op.begins returned where
  keyed := h.keyed.step op
  spaced := by
    intro id m' hm'
    obtain ⟨m, r, hm, -, hsame, -⟩ := step_lookup hop hm'
    rw [hsame]
    exact h.spaced id m hm
  same := by
    intro j hj m' hm'
    obtain ⟨m, r, hm, -, hsame, -⟩ := step_lookup hop hm'
    rw [hsame, h.same j hj m hm]
  waiting := by
    intro j hj hat m' hm' hen
    obtain ⟨m, r, hm, -, -, hwas, -⟩ := step_lookup hop hm'
    exact hpending j.id (h.waiting j hj hat m hm (hwas hen)) (not_settles hop hm' hen)
  past := fun j hj time ht => Int.le_trans (h.past j hj time ht) hT
  ahead := by
    intro j hj hat m' hm' time next ht hnext
    obtain ⟨m, r, hm, hr, -, -, hkept | ⟨u, hu, hset⟩⟩ := step_lookup hop hm'
    · exact h.ahead j hj hat m hm time next ht (hkept ▸ hnext)
    · -- computed at `r`, which is not before the job was returned
      obtain rfl : u = next := Option.some.inj (hset.symm.trans hnext)
      have hgt := computeNextRun_gt hL (by rwa [h.same j hj m hm]) (h.spaced j.id m hm) hu
      calc time ≤ T := h.past j hj time ht
        _ ≤ op.begins := hT
        _ ≤ r := hr
        _ < u := hgt
  once := h.once
  distinct := h.distinct

theorem Fired.tick (h : Fired s [] T returned) (hL : L.Forward) {now : DateTime}
    {clock : CronJobId → DateTime} (hop : (Op.dueJobs now clock).ReadsFrom T) :
    Fired (step L s (.dueJobs now clock)).1 (awaited L s [] (.dueJobs now clock)) now
      (returned ++ s.due L now clock) := by
  have hold : Fired (step L s (.dueJobs now clock)).1 (awaited L s [] (.dueJobs now clock)) now
      returned := h.move hL hop hop.1 fun id hid => nomatch hid
  have hdue := fun j (hj : j ∈ s.due L now clock) => mem_due h.keyed hj
  refine ⟨hold.keyed, hold.spaced, ?_, ?_, ?_, ?_, ?_, ?_⟩
  · intro j hj m' hm'
    rcases List.mem_append.mp hj with hj | hj
    · exact hold.same j hj m' hm'
    · obtain ⟨m, -, next, -, rfl, -, -, -, -, hafter⟩ := hdue j hj
      rw [hafter] at hm'
      cases hm'
      rfl
  · intro j hj hat m' hm' hen
    rcases List.mem_append.mp hj with hj | hj
    · exact hold.waiting j hj hat m' hm' hen
    · exact List.mem_map_of_mem (List.mem_filter.mpr ⟨hj, hat⟩)
  · intro j hj time ht
    rcases List.mem_append.mp hj with hj | hj
    · exact hold.past j hj time ht
    · obtain ⟨-, t, -, -, -, -, ht', hle, -⟩ := hdue j hj
      obtain rfl : t = time := Option.some.inj (ht'.symm.trans ht)
      exact hle
  · intro j hj hat m' hm' time next ht hnext
    rcases List.mem_append.mp hj with hj | hj
    · exact hold.ahead j hj hat m' hm' time next ht hnext
    · obtain ⟨m, t, u, hm, rfl, -, ht', hle, hu, hafter⟩ := hdue j hj
      obtain rfl : t = time := Option.some.inj (ht'.symm.trans ht)
      rw [hafter] at hm'
      cases hm'
      obtain rfl : u = next := Option.some.inj hnext
      calc t ≤ now := hle
        _ ≤ clock m.job.id := hop.2 _
        _ < u := computeNextRun_gt hL hat (h.spaced _ m hm) hu
  · intro id
    rw [List.countP_append]
    have hone : (s.due L now clock).countP (fun j => j.id = id ∧ isAt j.schedule) ≤ 1 := by
      calc _ ≤ (s.due L now clock).countP (fun j => j.id = id) :=
          List.countP_mono_left fun j _ => by simp +contextual
        _ ≤ 1 := by
          rw [List.countP_eq_length_filter]
          exact due_filter_length L now clock h.keyed id
    rcases Nat.eq_zero_or_pos ((s.due L now clock).countP fun j => j.id = id ∧ isAt j.schedule)
      with hzero | hpos
    · rw [hzero, Nat.add_zero]
      exact h.once id
    · -- the job is enabled, so it has not been returned before
      obtain ⟨j, hj, hjp⟩ := List.countP_pos_iff.mp hpos
      obtain ⟨hid, -⟩ : j.id = id ∧ isAt j.schedule = true := by simpa using hjp
      obtain ⟨m, -, -, hm, -, hen, -⟩ := hdue j hj
      have hnone : returned.countP (fun j => j.id = id ∧ isAt j.schedule) = 0 := by
        apply List.countP_eq_zero.mpr
        intro j' hj' hp
        obtain ⟨hid', hat'⟩ : j'.id = id ∧ isAt j'.schedule = true := by simpa using hp
        exact nomatch h.waiting j' hj' hat' m (by rw [hid', ← hid]; exact hm) hen
      rw [hnone, Nat.zero_add]
      exact hone
  · intro id
    rw [List.filter_append, List.map_append]
    refine List.Nodup.append (h.distinct id) ?_ ?_
    · have hlen : ((s.due L now clock).filter fun j => j.id = id ∧ ¬ isAt j.schedule).length ≤ 1 := by
        refine le_trans ?_ (due_filter_length L now clock h.keyed id)
        rw [← List.countP_eq_length_filter, ← List.countP_eq_length_filter]
        exact List.countP_mono_left fun j _ => by simp +contextual
      apply nodup_of_length_le_one
      rwa [List.length_map]
    · intro x hx hx'
      obtain ⟨j, hj, rfl⟩ := List.mem_map.mp hx
      obtain ⟨j', hj', he⟩ := List.mem_map.mp hx'
      obtain ⟨hjr, hjp⟩ := List.mem_filter.mp hj
      obtain ⟨hjd, hjp'⟩ := List.mem_filter.mp hj'
      obtain ⟨hid, hat⟩ : j.id = id ∧ isAt j.schedule = false := by simpa using hjp
      obtain ⟨hid', -⟩ : j'.id = id ∧ isAt j'.schedule = false := by simpa using hjp'
      obtain ⟨m, t, -, hm, rfl, -, ht, -⟩ := hdue j' hjd
      have hlt := h.ahead j hjr hat m (by rw [hid, ← hid']; exact hm) t t (he ▸ ht) ht
      exact absurd hlt (Int.lt_irrefl t)

/-- One tick or outcome of a prompt run. -/
theorem Fired.step (h : Fired s pending T returned) (hL : L.Forward) {op : Op}
    (hop : op.ReadsFrom T) (hprompt : op.isTick = true → pending = []) :
    Fired (step L s op).1 (awaited L s pending op) op.begins (returned ++ (step L s op).2) := by
  have hmoved (hT : T ≤ op.begins) (htick : op.isTick = false) (hout : (CronScheduler.step L s op).2 = []) :
      Fired (CronScheduler.step L s op).1 (awaited L s pending op) op.begins
        (returned ++ (CronScheduler.step L s op).2) := by
    rw [hout, List.append_nil]
    apply h.move hL hop hT
    intro id hid hs
    rw [awaited, htick]
    exact List.mem_filter.mpr ⟨hid, by rw [hs]; rfl⟩
  cases op with
  | load | addJob | removeJob | setEnabled => exact hop.elim
  | dueJobs now clock =>
    obtain rfl := hprompt rfl
    exact h.tick hL hop
  | recordSuccess | recordFailure => exact hmoved hop.1 rfl rfl

theorem Fired.run (hL : L.Forward) {ops : List Op} (h : Fired s pending T returned)
    (htimes : Chronological T ops) (hprompt : Prompt L s pending ops) :
    ∃ pending' T', Fired (run (CronScheduler.step L) s ops).1 pending' T'
      (returned ++ (run (CronScheduler.step L) s ops).2) := by
  induction ops generalizing s pending T returned with
  | nil =>
    refine ⟨pending, T, ?_⟩
    rwa [run_nil, List.append_nil]
  | cons op ops ih =>
    rw [run_cons, ← List.append_assoc]
    exact ih (h.step hL htimes.1 hprompt.1) htimes.2 hprompt.2

end Step

/-- In every run of ticks and outcomes from a store that operations have built, if
the jobs that run at one time are settled before the next tick and intervals are
positive, such a job is returned once and a recurring one once per scheduled time. -/
theorem dueJobs_once (L : CronLibrary) (hL : L.Forward) (maxTotalJobs : Nat)
    (before ops : List Op) (T : DateTime) (htimes : Chronological T ops) :
    let s := (run (step L) (new maxTotalJobs) before).1
    (∀ id m, s.jobs.lookup id = some m → Spaced m.job.schedule) → Prompt L s [] ops →
    let returned := (run (step L) s ops).2
    (∀ id, returned.countP (fun j => j.id = id ∧ isAt j.schedule) ≤ 1) ∧
    ∀ id, ((returned.filter fun j => j.id = id ∧ ¬ isAt j.schedule).map (·.nextRun)).Nodup := by
  intro s hspaced hprompt returned
  have hstart : Fired s [] T [] := by
    refine ⟨run_keyed maxTotalJobs before, hspaced, ?_, ?_, ?_, ?_, ?_, ?_⟩ <;> simp
  obtain ⟨pending, T', h⟩ := hstart.run hL htimes hprompt
  exact ⟨h.once, h.distinct⟩

/-- A one-shot job for second 100. -/
def alarmed : List Op := [.addJob (reminder 1 (.at (100 * nanosPerSec))) true 0 0]

def tickAt (secs : Int) : Op := .dueJobs (secs * nanosPerSec) fun _ => secs * nanosPerSec

def doneAt (secs : Int) : Op :=
  .recordSuccess 1 (secs * nanosPerSec) (secs * nanosPerSec)

def failedAt (secs : Int) : Op :=
  .recordFailure 1 "timed out".toList (secs * nanosPerSec) (secs * nanosPerSec)

theorem tickAt_readsFrom {T secs : Int} (h : T ≤ secs * nanosPerSec) : (tickAt secs).ReadsFrom T :=
  ⟨h, fun _ => Int.le_refl _⟩

theorem dueJobs_once_alarmed :
    let s := (run (step plainLibrary) (new 500) alarmed).1
    ∀ id, (run (step plainLibrary) s [tickAt 101, doneAt 103, tickAt 116]).2.countP
      (fun j => j.id = id ∧ isAt j.schedule) ≤ 1 := by
  refine (dueJobs_once plainLibrary (fun _ _ _ _ h => nomatch h) 500 alarmed
    [tickAt 101, doneAt 103, tickAt 116] 0 ?_ ?_ ?_).1
  · exact ⟨tickAt_readsFrom (by decide), ⟨by decide, by decide⟩,
      tickAt_readsFrom (by decide), trivial⟩
  · intro id m hm
    have hall : ∀ e ∈ (run (step plainLibrary) (new 500) alarmed).1.jobs.entries,
        Spaced e.2.job.schedule := by decide
    exact hall ⟨id, m⟩ (mem_entries.mpr hm)
  · exact ⟨fun _ => rfl, (fun h => nomatch h), fun _ => by decide, trivial⟩

/-- A job that still runs, or whose run has failed, is returned by the next tick again. -/
theorem dueJobs_twice :
    let s := (run (step plainLibrary) (new 500) alarmed).1
    (run (step plainLibrary) s [tickAt 101, tickAt 116]).2.countP
      (fun j => j.id = 1 ∧ isAt j.schedule) = 2 ∧
    (run (step plainLibrary) s
      [tickAt 101, failedAt 103, tickAt 116]).2.countP
      (fun j => j.id = 1 ∧ isAt j.schedule) = 2 := by
  decide

end CronScheduler

end Clawreform.Kernel
