import Clawreform.Lib.Json
import Clawreform.Lib.Store
import Mathlib.Data.List.Dedup

namespace Clawreform.Runtime.A2a

open Clawreform.Lib.Text Clawreform.Lib.Store
open Clawreform.Lib.Json (Value)

section Tasks

inductive A2aTaskStatus where
  | submitted
  | working
  | inputRequired
  | completed
  | cancelled
  | failed
  deriving DecidableEq

inductive A2aPart where
  | text (text : Str)
  | file (name mimeType data : Str)
  | data (mimeType : Str) (data : Value)
  deriving DecidableEq

structure A2aMessage where
  role : Str
  parts : List A2aPart
  deriving DecidableEq

structure A2aArtifact where
  name : Str
  parts : List A2aPart
  deriving DecidableEq

structure A2aTask where
  id : Str
  sessionId : Option Str
  status : A2aTaskStatus
  messages : List A2aMessage
  artifacts : List A2aArtifact
  deriving DecidableEq

def A2aTaskStatus.finished (status : A2aTaskStatus) : Bool :=
  status = .completed || status = .failed || status = .cancelled

end Tasks

section Store

structure A2aTaskStore where
  tasks : Map Str A2aTask
  maxTasks : Nat
  deriving DecidableEq

def isFinished (tasks : Map Str A2aTask) (id : Str) : Bool :=
  (tasks.lookup id).any fun task => task.status.finished

/-- A hash map is iterated in an order of its own: what `order` lists comes first. -/
def iterated (order : List Str) (tasks : Map Str A2aTask) : List Str :=
  order.filter (· ∈ tasks.keys) ++ tasks.keys.filter (· ∉ order)

def evictKey (order : List Str) (tasks : Map Str A2aTask) : Option Str :=
  (iterated order tasks).find? (isFinished tasks)

namespace A2aTaskStore

def new (maxTasks : Nat) : A2aTaskStore := ⟨∅, maxTasks⟩

variable (s : A2aTaskStore)

def insert (task : A2aTask) (order : List Str) : A2aTaskStore :=
  let tasks :=
    if s.maxTasks ≤ size s.tasks then (evictKey order s.tasks).elim s.tasks s.tasks.erase
    else s.tasks
  { s with tasks := tasks.insert task.id task }

def get (taskId : Str) : Option A2aTask := s.tasks.lookup taskId

def updateStatus (taskId : Str) (status : A2aTaskStatus) : A2aTaskStore × Bool :=
  ({ s with tasks := adjust taskId (fun task => { task with status := status }) s.tasks },
    s.tasks.keys.contains taskId)

def complete (taskId : Str) (response : A2aMessage) (artifacts : List A2aArtifact) :
    A2aTaskStore :=
  let finish (task : A2aTask) : A2aTask :=
    { task with
      messages := task.messages ++ [response]
      artifacts := task.artifacts ++ artifacts
      status := .completed }
  { s with tasks := adjust taskId finish s.tasks }

def fail (taskId : Str) (errorMessage : A2aMessage) : A2aTaskStore :=
  let finish (task : A2aTask) : A2aTask :=
    { task with messages := task.messages ++ [errorMessage], status := .failed }
  { s with tasks := adjust taskId finish s.tasks }

def cancel (taskId : Str) : A2aTaskStore × Bool := s.updateStatus taskId .cancelled

end A2aTaskStore

inductive Op where
  | insert (task : A2aTask) (order : List Str)
  | updateStatus (taskId : Str) (status : A2aTaskStatus)
  | complete (taskId : Str) (response : A2aMessage) (artifacts : List A2aArtifact)
  | fail (taskId : Str) (errorMessage : A2aMessage)
  | cancel (taskId : Str)
  deriving DecidableEq

def A2aTaskStore.apply (s : A2aTaskStore) : Op → A2aTaskStore
  | .insert task order => s.insert task order
  | .updateStatus taskId status => (s.updateStatus taskId status).1
  | .complete taskId response artifacts => s.complete taskId response artifacts
  | .fail taskId errorMessage => s.fail taskId errorMessage
  | .cancel taskId => (s.cancel taskId).1

/-- The store after some calls; each holds the lock from its start to its end. -/
def after (maxTasks : Nat) (ops : List Op) : A2aTaskStore :=
  ops.foldl A2aTaskStore.apply (.new maxTasks)

end Store

section Purpose

def insertions (past : List Op) : List Str :=
  past.filterMap fun
    | .insert task _ => some task.id
    | _ => none

/-- The finished task whose insertion is the longest ago. -/
def oldestFinished (past : List Op) (tasks : Map Str A2aTask) : Option Str :=
  (insertions past).dedup.find? (isFinished tasks)

/-- A finished task that is still there has the status it had. -/
def Settled (tasks tasks' : Map Str A2aTask) : Prop :=
  ∀ id task task', tasks.lookup id = some task → task.status.finished →
    tasks'.lookup id = some task' → task'.status = task.status

/-- An insert into a full store takes the oldest finished task out, and no other. -/
def Evicts (past : List Op) (s s' : A2aTaskStore) : Op → Prop
  | .insert task _ => s.maxTasks ≤ size s.tasks → ∀ id, s'.get id =
      if id = task.id then some task
      else if oldestFinished past s.tasks = some id then none else s.get id
  | _ => True

/-- What the store is for, over a run. -/
structure Sound (maxTasks : Nat) (ops : List Op) : Prop where
  bounded : ∀ past, past <+: ops → size (after maxTasks past).tasks ≤ maxTasks
  evicts : ∀ past op rest, ops = past ++ op :: rest →
    Evicts past (after maxTasks past) (after maxTasks (past ++ [op])) op
  settled : ∀ past op rest, ops = past ++ op :: rest →
    Settled (after maxTasks past).tasks (after maxTasks (past ++ [op])).tasks

/-- A task is not finished yet, or keeps its status. -/
def Keeps (tasks : Map Str A2aTask) (id : Str) (status : A2aTaskStatus) : Prop :=
  ∀ task, tasks.lookup id = some task → task.status.finished → status = task.status

/-- There is room for the task, perhaps its own place or that of a finished task, and the first
finished task in the order of the map is the oldest. -/
def Fits (past : List Op) (s : A2aTaskStore) (id : Str) (order : List Str) : Prop :=
  s.maxTasks ≤ size s.tasks →
    (id ∈ s.tasks ∨ ∃ k, isFinished s.tasks k) ∧
      evictKey order s.tasks = oldestFinished past s.tasks

def Careful (past : List Op) (s : A2aTaskStore) : Op → Prop
  | .insert task order => Fits past s task.id order ∧ Keeps s.tasks task.id task.status
  | .updateStatus taskId status => Keeps s.tasks taskId status
  | .complete taskId _ _ => Keeps s.tasks taskId .completed
  | .fail taskId _ => Keeps s.tasks taskId .failed
  | .cancel taskId => Keeps s.tasks taskId .cancelled

end Purpose

section Steps

variable {tasks : Map Str A2aTask} {order : List Str} {id : Str}

theorem isFinished_iff : isFinished tasks id ↔
    ∃ task, tasks.lookup id = some task ∧ task.status.finished := by
  simp [isFinished, Option.any_eq_true]

theorem mem_of_isFinished (h : isFinished tasks id) : id ∈ tasks := by
  obtain ⟨task, hlookup, -⟩ := isFinished_iff.mp h
  exact AList.lookup_isSome.mp (by rw [hlookup]; rfl)

theorem mem_iterated : id ∈ iterated order tasks ↔ id ∈ tasks := by
  by_cases h : id ∈ order <;> simp [iterated, AList.mem_keys, h]

/-- Looking through all the tasks finds a finished one, if there is any. -/
theorem find_eq_none_iff {ids : List Str} (h : ∀ id ∈ tasks, id ∈ ids) :
    ids.find? (isFinished tasks) = none ↔ ¬ ∃ id, isFinished tasks id := by
  rw [List.find?_eq_none, not_exists]
  constructor
  · intro hnone id hid
    exact hnone id (h id (mem_of_isFinished hid)) hid
  · exact fun hnone id _ => hnone id

theorem evictKey_eq_none_iff : evictKey order tasks = none ↔ ¬ ∃ id, isFinished tasks id :=
  find_eq_none_iff fun _ h => mem_iterated.mpr h

theorem isFinished_evictKey (h : evictKey order tasks = some id) : isFinished tasks id :=
  List.find?_some h

variable {s : A2aTaskStore} {task : A2aTask}

theorem get_insert (s : A2aTaskStore) (task : A2aTask) (order : List Str) (id : Str) :
    (s.insert task order).get id =
      if id = task.id then some task
      else if s.maxTasks ≤ size s.tasks ∧ evictKey order s.tasks = some id then none
      else s.get id := by
  rw [A2aTaskStore.get, A2aTaskStore.insert, lookup_insert]
  by_cases hid : id = task.id
  · rw [if_pos hid, if_pos hid]
  · rw [if_neg hid, if_neg hid]
    by_cases hfull : s.maxTasks ≤ size s.tasks
    · simp only [hfull, if_true, true_and]
      cases evictKey order s.tasks with
      | none => rfl
      | some k =>
        rw [Option.elim_some, lookup_erase]
        by_cases hk : id = k <;> simp [hk, A2aTaskStore.get, eq_comm]
    · simp [hfull, A2aTaskStore.get]

/-- Within the bound, an insert stays there if and only if it finds room when the store is full. -/
theorem size_insert_le_iff (h : size s.tasks ≤ s.maxTasks) :
    size (s.insert task order).tasks ≤ s.maxTasks ↔
      (s.maxTasks ≤ size s.tasks → task.id ∈ s.tasks ∨ ∃ k, isFinished s.tasks k) := by
  rw [A2aTaskStore.insert]
  by_cases hfull : s.maxTasks ≤ size s.tasks
  · simp only [hfull, if_true, forall_const]
    cases hevict : evictKey order s.tasks with
    | none =>
      have hnone := evictKey_eq_none_iff.mp hevict
      rw [Option.elim_none, or_iff_left hnone]
      by_cases hmem : task.id ∈ s.tasks
      · simp [size_insert_of_mem hmem, h, hmem]
      · rw [size_insert_of_notMem hmem]
        exact iff_of_false (by omega) hmem
    | some k =>
      have hk := isFinished_evictKey hevict
      rw [Option.elim_some]
      have hinsert := size_insert_le task.id task (s.tasks.erase k)
      have herase := size_erase_of_mem (mem_of_isFinished hk)
      exact iff_of_true (by omega) (.inr ⟨k, hk⟩)
  · simp only [if_neg hfull]
    have hinsert := size_insert_le task.id task s.tasks
    exact iff_of_true (by omega) fun hle => absurd hle hfull

theorem settled_insert_iff :
    Settled s.tasks (s.insert task order).tasks ↔ Keeps s.tasks task.id task.status := by
  constructor
  · intro h old hlookup hfinished
    have hget := get_insert s task order task.id
    rw [if_pos rfl] at hget
    exact h task.id old task hlookup hfinished hget
  · intro h id old new hlookup hfinished hnew
    have hget := get_insert s task order id
    rw [A2aTaskStore.get, hnew] at hget
    by_cases hid : id = task.id
    · rw [if_pos hid] at hget
      subst hid
      rw [Option.some.inj hget]
      exact h old hlookup hfinished
    · rw [if_neg hid] at hget
      split at hget
      · cases hget
      · rw [A2aTaskStore.get, hlookup] at hget
        rw [Option.some.inj hget]

theorem settled_adjust_iff {f : A2aTask → A2aTask} {status : A2aTaskStatus}
    (hf : ∀ task, (f task).status = status) :
    Settled tasks (adjust id f tasks) ↔ Keeps tasks id status := by
  constructor
  · intro h task hlookup hfinished
    rw [← hf task]
    exact h id task (f task) hlookup hfinished (by rw [lookup_adjust_self, hlookup]; rfl)
  · intro h id' task task' hlookup hfinished hnew
    rw [lookup_adjust] at hnew
    by_cases hid : id' = id
    · rw [if_pos hid, hlookup] at hnew
      rw [← Option.some.inj hnew, hf]
      exact h task (hid ▸ hlookup) hfinished
    · rw [if_neg hid, hlookup] at hnew
      rw [Option.some.inj hnew]

theorem size_adjust (id : Str) (f : A2aTask → A2aTask) (tasks : Map Str A2aTask) :
    size (adjust id f tasks) = size tasks := by
  rw [size_eq_length_keys, keys_adjust, size_eq_length_keys]

theorem maxTasks_apply (s : A2aTaskStore) (op : Op) : (s.apply op).maxTasks = s.maxTasks := by
  cases op <;> rfl

end Steps

section Runs

variable {maxTasks : Nat} {past : List Op}

theorem after_concat (maxTasks : Nat) (past : List Op) (op : Op) :
    after maxTasks (past ++ [op]) = (after maxTasks past).apply op := by
  simp [after]

theorem maxTasks_after (maxTasks : Nat) (past : List Op) :
    (after maxTasks past).maxTasks = maxTasks := by
  induction past using List.reverseRecOn with
  | nil => rfl
  | append_singleton past op ih => rw [after_concat, maxTasks_apply, ih]

theorem mem_adjust {id id' : Str} {f : A2aTask → A2aTask} {tasks : Map Str A2aTask} :
    id ∈ adjust id' f tasks ↔ id ∈ tasks := by
  rw [AList.mem_keys, keys_adjust, ← AList.mem_keys]

theorem mem_insert {s : A2aTaskStore} {task : A2aTask} {order : List Str} {id : Str}
    (h : id ∈ (s.insert task order).tasks) : id = task.id ∨ id ∈ s.tasks := by
  rw [A2aTaskStore.insert, AList.mem_insert] at h
  refine h.imp_right fun hmem => ?_
  split at hmem
  · cases hevict : evictKey order s.tasks with
    | none => simpa [hevict] using hmem
    | some k =>
      rw [hevict, Option.elim_some, AList.mem_erase] at hmem
      exact hmem.2
  · exact hmem

theorem insertions_concat (past : List Op) (op : Op) :
    insertions (past ++ [op]) = insertions past ++ insertions [op] := by
  simp [insertions]

theorem mem_insertions {id : Str} (h : id ∈ (after maxTasks past).tasks) :
    id ∈ insertions past := by
  induction past using List.reverseRecOn with
  | nil => simp [after, A2aTaskStore.new] at h
  | append_singleton past op ih =>
    rw [after_concat] at h
    rw [insertions_concat]
    have hold (hmem : id ∈ (after maxTasks past).tasks) :
        id ∈ insertions past ++ insertions [op] := List.mem_append_left _ (ih hmem)
    cases op with
    | insert task order =>
      obtain rfl | hmem := mem_insert h
      · simp [insertions]
      · exact hold hmem
    | updateStatus taskId status => exact hold (mem_adjust.mp h)
    | complete taskId response artifacts => exact hold (mem_adjust.mp h)
    | fail taskId errorMessage => exact hold (mem_adjust.mp h)
    | cancel taskId => exact hold (mem_adjust.mp h)

theorem oldestFinished_eq_none_iff :
    oldestFinished past (after maxTasks past).tasks = none ↔
      ¬ ∃ id, isFinished (after maxTasks past).tasks id :=
  find_eq_none_iff fun _ h => List.mem_dedup.mpr (mem_insertions h)

/-- The insert does what it should exactly when the task found first is the oldest. -/
theorem evicts_insert_iff {task : A2aTask} {order : List Str}
    (hfull : maxTasks ≤ size (after maxTasks past).tasks) :
    Evicts past (after maxTasks past) ((after maxTasks past).insert task order)
        (.insert task order) ↔
      evictKey order (after maxTasks past).tasks =
        oldestFinished past (after maxTasks past).tasks := by
  simp only [Evicts, get_insert, maxTasks_after, hfull, forall_const, true_and]
  constructor
  · intro h
    cases hevict : evictKey order (after maxTasks past).tasks with
    | none => exact (oldestFinished_eq_none_iff.mpr (evictKey_eq_none_iff.mp hevict)).symm
    | some k =>
      cases holdest : oldestFinished past (after maxTasks past).tasks with
      | none =>
        exact absurd ⟨k, isFinished_evictKey hevict⟩ (oldestFinished_eq_none_iff.mp holdest)
      | some k' =>
        have hstored (id : Str) (hid : isFinished (after maxTasks past).tasks id) :
            (after maxTasks past).get id ≠ none := by
          obtain ⟨task', hlookup, -⟩ := isFinished_iff.mp hid
          simp [A2aTaskStore.get, hlookup]
        have hk := hstored k (isFinished_evictKey hevict)
        have hk' := hstored k' (List.find?_some holdest)
        by_contra hne
        have hneq : k ≠ k' := fun he => hne (congrArg some he)
        by_cases hid : k = task.id
        · have hget := h k'
          rw [hevict, holdest, if_neg fun he => hneq (hid.trans he.symm),
            if_neg fun he => hneq (Option.some.inj he), if_neg fun he => hneq (hid.trans he.symm),
            if_pos rfl] at hget
          exact hk' hget
        · have hget := h k
          rw [hevict, holdest, if_neg hid, if_pos rfl, if_neg hid,
            if_neg fun he => hneq (Option.some.inj he).symm] at hget
          exact hk hget.symm
  · intro h id
    rw [h]

/-- A call does right by a store within its bound exactly when it is careful. -/
theorem careful_iff (op : Op) (h : size (after maxTasks past).tasks ≤ maxTasks) :
    Careful past (after maxTasks past) op ↔
      size (after maxTasks (past ++ [op])).tasks ≤ maxTasks ∧
        Evicts past (after maxTasks past) (after maxTasks (past ++ [op])) op ∧
          Settled (after maxTasks past).tasks (after maxTasks (past ++ [op])).tasks := by
  have hmax := maxTasks_after maxTasks past
  have hupdate (id : Str) (f : A2aTask → A2aTask) (status : A2aTaskStatus)
      (hf : ∀ task, (f task).status = status) :
      Keeps (after maxTasks past).tasks id status ↔
        size (adjust id f (after maxTasks past).tasks) ≤ maxTasks ∧ True ∧
          Settled (after maxTasks past).tasks (adjust id f (after maxTasks past).tasks) := by
    rw [settled_adjust_iff hf, size_adjust, true_and, and_iff_right h]
  rw [after_concat]
  cases op with
  | insert task order =>
    have hsize := @size_insert_le_iff order (after maxTasks past) task (h.trans hmax.ge)
    rw [hmax] at hsize
    simp only [A2aTaskStore.apply, Careful, Fits, settled_insert_iff, hsize, hmax]
    by_cases hfull : maxTasks ≤ size (after maxTasks past).tasks
    · simp only [hfull, forall_const, evicts_insert_iff hfull, and_assoc]
    · simp [hfull, Evicts, hmax]
  | updateStatus taskId status => exact hupdate taskId _ status fun _ => rfl
  | complete taskId response artifacts => exact hupdate taskId _ .completed fun _ => rfl
  | fail taskId errorMessage => exact hupdate taskId _ .failed fun _ => rfl
  | cancel taskId => exact hupdate taskId _ .cancelled fun _ => rfl

/-- Over a run the store is sound if and only if every call is careful. -/
theorem tasks_kept_iff (maxTasks : Nat) (ops : List Op) : Sound maxTasks ops ↔
    ∀ past op rest, ops = past ++ op :: rest → Careful past (after maxTasks past) op := by
  constructor
  · rintro h past op rest rfl
    refine (careful_iff op (h.bounded past (List.prefix_append _ _))).mpr ⟨?_, ?_, ?_⟩
    · exact h.bounded (past ++ [op]) ⟨rest, by simp⟩
    · exact h.evicts past op rest rfl
    · exact h.settled past op rest rfl
  · intro h
    have hbounded (past : List Op) (hpast : past <+: ops) :
        size (after maxTasks past).tasks ≤ maxTasks := by
      induction past using List.reverseRecOn with
      | nil => exact Nat.zero_le _
      | append_singleton past op ih =>
        obtain ⟨rest, hrest⟩ := hpast
        have hsplit : ops = past ++ op :: rest := by simp [← hrest]
        have hsize := ih ⟨op :: rest, hsplit.symm⟩
        exact ((careful_iff op hsize).mp (h past op rest hsplit)).1
    have hstep (past : List Op) (op : Op) (rest : List Op) (hsplit : ops = past ++ op :: rest) :=
      (careful_iff op (hbounded past ⟨op :: rest, hsplit.symm⟩)).mp (h past op rest hsplit)
    exact ⟨hbounded, fun past op rest hsplit => (hstep past op rest hsplit).2.1,
      fun past op rest hsplit => (hstep past op rest hsplit).2.2⟩

end Runs

section Examples

def task (id : String) (status : A2aTaskStatus) : A2aTask := ⟨id.toList, none, status, [], []⟩

/-- A store for one task takes a second one while the first is still worked on. -/
theorem second_task_exceeds :
    ¬ Sound 1 [.insert (task "a" .working) [], .insert (task "b" .working) []] := by
  intro h
  exact absurd (h.bounded _ List.prefix_rfl) (by decide)

end Examples

end Clawreform.Runtime.A2a
