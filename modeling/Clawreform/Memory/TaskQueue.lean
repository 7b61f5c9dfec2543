import Clawreform.Lib.Run
import Clawreform.Lib.Trace
import Clawreform.Memory.Usage
import Mathlib.Data.List.MinMax
import Mathlib.Data.List.Nodup

namespace Clawreform.Memory.TaskQueue

open Clawreform.Lib.Text Clawreform.Lib.Calendar Clawreform.Lib.Run Clawreform.Lib.Trace
open Clawreform.Memory.Usage (Reading toRfc3339 clockText fraction day dayNanos secondNanos
  year_day_lt)

section Timestamps

def offset : Str := "+00:00".toList

/-- The sign of the offset comes before any digit, so a text that ends is before one that goes
on. -/
theorem offset_lt_digits (w n : Nat) (s : Str) : offset < digits (w + 1) n ++ s := by
  have hdigit : ∀ d < 10, '+' < Nat.digitChar d := by decide
  induction w generalizing n s with
  | zero => exact List.Lex.rel (hdigit _ (Nat.mod_lt _ (by decide)))
  | succ w ih =>
    rw [digits, List.append_assoc]
    exact ih _ _

theorem offset_lt_dot (s : Str) : offset < '.' :: s := List.Lex.rel (by decide)

/-- The groups of three behind the first, as far as they are written. -/
def groups (b c : Nat) : Str :=
  if b = 0 ∧ c = 0 then offset
  else digits 3 b ++ if c = 0 then offset else digits 3 c ++ offset

theorem groups_lt {b c b' c' : Nat} (hb : b < 1000) (hc : c < 1000) (hb' : b' < 1000)
    (hc' : c' < 1000) (h : b < b' ∨ b = b' ∧ c < c') : groups b c < groups b' c' := by
  have hwritten : ¬ (b' = 0 ∧ c' = 0) := by omega
  rw [groups, groups, if_neg hwritten]
  by_cases hzero : b = 0 ∧ c = 0
  · rw [if_pos hzero]
    exact offset_lt_digits _ _ _
  · rw [if_neg hzero, append_lt_append_iff (by simp), digits_lt_iff hb hb', digits_inj hb hb']
    refine h.imp_right fun ⟨he, hlt⟩ => ⟨he, ?_⟩
    rw [if_neg (by omega : c' ≠ 0)]
    by_cases hc0 : c = 0
    · rw [if_pos hc0]
      exact offset_lt_digits _ _ _
    · rw [if_neg hc0, append_lt_append_iff (by simp), digits_lt_iff hc hc']
      exact .inl hlt

theorem digits_groups (w n : Nat) :
    digits (w + 3) n = digits w (n / 1000) ++ digits 3 (n % 1000) := by
  have h1 : n / 10 / 10 / 10 = n / 1000 := by omega
  have h2 : n % 1000 / 10 % 10 = n / 10 % 10 := by omega
  have h3 : n % 1000 / 10 / 10 % 10 = n / 10 / 10 % 10 := by omega
  have h4 : n % 1000 % 10 = n % 10 := by omega
  simp [digits, h1, h2, h3, h4]

theorem fraction_groups (f : Nat) : fraction f ++ offset =
    if f = 0 then offset
    else '.' :: (digits 3 (f / 1000000) ++ groups (f / 1000 % 1000) (f % 1000)) := by
  have hmillion : f / 1000 / 1000 = f / 1000000 := by omega
  by_cases hzero : f = 0
  · simp [fraction, hzero]
  · rw [fraction, if_neg hzero, if_neg hzero, groups]
    by_cases hmillis : f % 1000000 = 0
    · have hb : f / 1000 % 1000 = 0 := by omega
      have hc : f % 1000 = 0 := by omega
      simp [hmillis, hb, hc]
    · rw [if_neg hmillis]
      by_cases hmicros : f % 1000 = 0
      · have hb : f / 1000 % 1000 ≠ 0 := by omega
        have hdigits := digits_groups 3 (f / 1000)
        rw [hmillion] at hdigits
        simp [hmicros, hb, hdigits]
      · have hdigits := digits_groups 6 f
        rw [digits_groups 3, hmillion] at hdigits
        simp [hmicros, hdigits]

/-- However many digits are written, the texts of fractions stand in the order of the
fractions. -/
theorem fraction_lt {f g : Nat} (hg : g < secondNanos) (h : f < g) :
    fraction f ++ offset < fraction g ++ offset := by
  rw [secondNanos] at hg
  rw [fraction_groups, fraction_groups, if_neg (by omega : g ≠ 0)]
  by_cases hzero : f = 0
  · rw [if_pos hzero]
    exact offset_lt_dot _
  · rw [if_neg hzero, List.cons_lt_cons_iff, append_lt_append_iff (by simp),
      digits_lt_iff (by omega) (by omega), digits_inj (by omega) (by omega)]
    refine .inr ⟨rfl, ?_⟩
    by_cases hfirst : f / 1000000 = g / 1000000
    · refine .inr ⟨hfirst, groups_lt ?_ ?_ ?_ ?_ ?_⟩ <;> omega
    · exact .inl (by omega)

def secondOfDay (nanos : Nat) : Nat := nanos % dayNanos / secondNanos

theorem length_clockText (nanos : Nat) : (clockText nanos).length = 8 := by
  simp [clockText]

theorem secondOfDay_lt (nanos : Nat) : secondOfDay nanos < 86400 := by
  have h := Nat.mod_lt nanos (by decide : 0 < dayNanos)
  rw [secondOfDay]
  simp only [dayNanos, secondNanos] at h ⊢
  omega

theorem clockText_eq (nanos : Nat) : clockText nanos =
    digits 2 (secondOfDay nanos / 3600) ++ (":".toList ++ (digits 2 (secondOfDay nanos / 60 % 60) ++
      (":".toList ++ digits 2 (secondOfDay nanos % 60)))) := rfl

theorem clockText_lt_iff (s t : Nat) :
    clockText s < clockText t ↔ secondOfDay s < secondOfDay t := by
  have hs := secondOfDay_lt s
  have ht := secondOfDay_lt t
  rw [clockText_eq, clockText_eq]
  generalize secondOfDay s = m at hs
  generalize secondOfDay t = n at ht
  rw [append_lt_append_iff (by simp), append_lt_append_iff rfl, append_lt_append_iff (by simp),
    append_lt_append_iff rfl, digits_lt_iff (by omega) (by omega),
    digits_lt_iff (by omega) (by omega), digits_lt_iff (by omega) (by omega),
    digits_inj (by omega) (by omega), digits_inj (by omega) (by omega)]
  simp only [List.lt_irrefl, false_or, true_and]
  omega

theorem clockText_congr {s t : Nat} (h : secondOfDay s = secondOfDay t) :
    clockText s = clockText t := by
  rw [clockText_eq, clockText_eq, h]

/-- The time stamps of two readings stand in the order of the readings. -/
theorem toRfc3339_lt {s t : Reading} (h : s.nanos < t.nanos) :
    toRfc3339 s.nanos < toRfc3339 t.nanos := by
  have hshape (nanos : Nat) : toRfc3339 nanos = dateText (day nanos) ++ (['T'] ++
      (clockText nanos ++ (fraction (nanos % secondNanos) ++ offset))) := rfl
  rw [hshape, hshape, append_lt_append_iff (by simp),
    dateText_lt_iff (year_day_lt s) (year_day_lt t)]
  by_cases hday : day s.nanos < day t.nanos
  · exact .inl hday
  · have hsame : day s.nanos = day t.nanos := by
      have hle := Nat.div_le_div_right (c := dayNanos) h.le
      exact le_antisymm hle (Nat.le_of_not_lt hday)
    refine .inr ⟨congrArg dateText hsame, ?_⟩
    rw [append_lt_append_iff rfl]
    refine .inr ⟨rfl, ?_⟩
    rw [append_lt_append_iff (by rw [length_clockText, length_clockText]), clockText_lt_iff]
    by_cases hsecond : secondOfDay s.nanos < secondOfDay t.nanos
    · exact .inl hsecond
    · simp only [day, dayNanos, secondNanos] at hsame
      simp only [secondOfDay, dayNanos, secondNanos] at hsecond
      refine .inr ⟨clockText_congr ?_, fraction_lt (Nat.mod_lt _ (by decide)) ?_⟩
      · simp only [secondOfDay, dayNanos, secondNanos]
        omega
      · simp only [secondNanos]
        omega

theorem toRfc3339_lt_iff (s t : Reading) :
    toRfc3339 s.nanos < toRfc3339 t.nanos ↔ s.nanos < t.nanos := by
  refine ⟨fun h => ?_, toRfc3339_lt⟩
  by_contra hle
  obtain hlt | heq := lt_or_eq_of_le (Nat.le_of_not_lt hle)
  · exact List.lt_asymm h (toRfc3339_lt hlt)
  · rw [heq] at h
    exact List.lt_irrefl _ h

end Timestamps

section Store

inductive TaskStatus where
  | pending
  | inProgress
  | completed
  deriving DecidableEq

/-- A row of the table `task_queue`. -/
structure TaskRow where
  id : Str
  agentId : Str
  taskType : Str
  payload : List UInt8
  status : TaskStatus
  priority : Int
  createdAt : Str
  completedAt : Option Str
  title : Str
  description : Str
  assignedTo : Str
  createdBy : Str
  result : Str
  deriving DecidableEq

/-- What a claim answers; its status is that of a task in progress. -/
structure ClaimedTask where
  id : Str
  title : Str
  description : Str
  assignedTo : Str
  createdBy : Str
  createdAt : Str
  deriving DecidableEq

inductive TaskError where
  | memory (text : Str)
  | internal (text : Str)
  deriving DecidableEq

/-- The id is drawn and the clock read before the connection is locked. -/
def taskPost (id : Str) (now : Reading) (title description : Str)
    (assignedTo createdBy : Option Str) (rows : List TaskRow) :
    List TaskRow × Except TaskError Str :=
  if rows.any (·.id = id) then
    (rows, .error (.memory "UNIQUE constraint failed: task_queue.id".toList))
  else
    let row : TaskRow :=
      { id := id
        agentId := createdBy.getD []
        taskType := title
        payload := []
        status := .pending
        priority := 0
        createdAt := toRfc3339 now.nanos
        completedAt := none
        title := title
        description := description
        assignedTo := assignedTo.getD []
        createdBy := createdBy.getD []
        result := [] }
    (rows ++ [row], .ok id)

def eligible (agentId : Str) (row : TaskRow) : Bool :=
  row.status = .pending && (row.assignedTo = agentId || row.assignedTo = [])

/-- `ORDER BY priority DESC, created_at ASC` may put the row in front of the other. -/
def ordered (row other : TaskRow) : Bool :=
  decide (other.priority < row.priority) ||
    (row.priority = other.priority && !decide (other.createdAt < row.createdAt))

/-- The rows that may come first. -/
def firstRows (agentId : Str) (rows : List TaskRow) : List TaskRow :=
  rows.filter fun row => eligible agentId row && rows.all fun other =>
    !eligible agentId other || ordered row other

/-- `LIMIT 1` takes one of the rows that may come first; which of them is left open. -/
def selectFirst (pick : Nat) (agentId : Str) (rows : List TaskRow) : Option TaskRow :=
  let first := firstRows agentId rows
  first[pick]?.or first.head?

def answer (agentId : Str) (row : TaskRow) : ClaimedTask where
  id := row.id
  title := row.title
  description := row.description
  assignedTo := if row.assignedTo = [] then agentId else row.assignedTo
  createdBy := row.createdBy
  createdAt := row.createdAt

def updateId (id : Str) (set : TaskRow → TaskRow) (rows : List TaskRow) : List TaskRow :=
  rows.map fun row => if row.id = id then set row else row

def taskClaim (pick : Nat) (agentId : Str) (rows : List TaskRow) :
    List TaskRow × Option ClaimedTask :=
  match selectFirst pick agentId rows with
  | none => (rows, none)
  | some row =>
    let claim (row : TaskRow) := { row with status := .inProgress, assignedTo := agentId }
    (updateId row.id claim rows, some (answer agentId row))

def taskComplete (now : Reading) (taskId result : Str) (rows : List TaskRow) :
    List TaskRow × Except TaskError Unit :=
  if rows.any (·.id = taskId) then
    let complete (row : TaskRow) :=
      { row with
        status := .completed
        result := result
        completedAt := some (toRfc3339 now.nanos) }
    (updateId taskId complete rows, .ok ())
  else (rows, .error (.internal ("Task not found: ".toList ++ taskId)))

end Store

section Calls

inductive Request where
  | post (id : Str) (now : Reading) (title description : Str) (assignedTo createdBy : Option Str)
  | claim (pick : Nat) (agentId : Str)
  | complete (now : Reading) (taskId result : Str)

/-- A call, with the error of the database that ends it, if there is one. -/
structure Call where
  dbError : Option Str
  request : Request

inductive Event where
  | posted (id assignedTo : Str) (at_ : Reading)
  | claimed (agentId : Str) (task : ClaimedTask)
  | nothingFound (agentId : Str)
  | completed (id : Str)
  | failed (e : TaskError)

/-- Each call is one transaction: one that fails changes nothing. -/
def step (rows : List TaskRow) (call : Call) : List TaskRow × List Event :=
  match call.dbError with
  | some e => (rows, [.failed (.memory e)])
  | none =>
    match call.request with
    | .post id now title description assignedTo createdBy =>
      match taskPost id now title description assignedTo createdBy rows with
      | (rows, .ok id) => (rows, [.posted id (assignedTo.getD []) now])
      | (rows, .error e) => (rows, [.failed e])
    | .claim pick agentId =>
      match taskClaim pick agentId rows with
      | (rows, some task) => (rows, [.claimed agentId task])
      | (rows, none) => (rows, [.nothingFound agentId])
    | .complete now taskId result =>
      match taskComplete now taskId result rows with
      | (rows, .ok ()) => (rows, [.completed taskId])
      | (rows, .error e) => (rows, [.failed e])

end Calls

section Purpose

structure Posted where
  id : Str
  assignedTo : Str
  at_ : Reading

def posted (past : List Event) : List Posted :=
  past.filterMap fun
    | .posted id assignedTo at_ => some ⟨id, assignedTo, at_⟩
    | _ => none

def claimedIds (past : List Event) : List Str :=
  past.filterMap fun
    | .claimed _ task => some task.id
    | _ => none

def completedIds (past : List Event) : List Str :=
  past.filterMap fun
    | .completed id => some id
    | _ => none

/-- A task that an agent may claim: its own or nobody's, neither claimed nor completed. -/
structure Eligible (past : List Event) (agentId : Str) (p : Posted) : Prop where
  posted : p ∈ posted past
  assigned : p.assignedTo = agentId ∨ p.assignedTo = []
  unclaimed : p.id ∉ claimedIds past
  uncompleted : p.id ∉ completedIds past

/-- No task that the agent may claim was posted at an earlier time. -/
def Oldest (past : List Event) (agentId : Str) (p : Posted) : Prop :=
  Eligible past agentId p ∧ ∀ q, Eligible past agentId q → p.at_.nanos ≤ q.at_.nanos

def Proper (past : List Event) : Event → Prop
  | .posted id _ _ => id ∉ (posted past).map Posted.id
  | .claimed agentId task => ∃ p, Oldest past agentId p ∧ p.id = task.id
  | .nothingFound agentId => ∀ p, ¬ Eligible past agentId p
  | .completed id => id ∈ (posted past).map Posted.id
  | .failed _ => True

/-- What the queue is for, over what the calls answer. -/
structure QueueSound (events : List Event) : Prop where
  once : (claimedIds events).Nodup
  assigned : ∀ agentId task p, .claimed agentId task ∈ events → p ∈ posted events →
    p.id = task.id → p.assignedTo = agentId ∨ p.assignedTo = []
  oldest : ∀ past agentId task rest, events = past ++ .claimed agentId task :: rest →
    ∃ p, Oldest past agentId p ∧ p.id = task.id
  found : ∀ past agentId rest, events = past ++ .nothingFound agentId :: rest →
    ∀ p, ¬ Eligible past agentId p
  uncompleted : ∀ past agentId task rest, events = past ++ .claimed agentId task :: rest →
    task.id ∉ completedIds past

variable {past events : List Event}

theorem posted_append (past past' : List Event) :
    posted (past ++ past') = posted past ++ posted past' := List.filterMap_append

theorem claimedIds_append (past past' : List Event) :
    claimedIds (past ++ past') = claimedIds past ++ claimedIds past' := List.filterMap_append

theorem completedIds_append (past past' : List Event) :
    completedIds (past ++ past') = completedIds past ++ completedIds past' :=
  List.filterMap_append

theorem nodup_posted (h : Always Proper events) : ((posted events).map Posted.id).Nodup := by
  induction events using List.reverseRecOn with
  | nil => exact List.nodup_nil
  | append_singleton past e ih =>
    obtain ⟨hpast, he⟩ := always_concat.mp h
    rw [posted_append, List.map_append]
    cases e with
    | posted id assignedTo at_ =>
      refine List.nodup_append.mpr ⟨ih hpast, by simp [posted], ?_⟩
      rintro _ hid _ hlast rfl
      obtain rfl := List.mem_singleton.mp hlast
      exact he hid
    | claimed agentId task => simpa [posted] using ih hpast
    | nothingFound agentId => simpa [posted] using ih hpast
    | completed id => simpa [posted] using ih hpast
    | failed e => simpa [posted] using ih hpast

theorem nodup_claimedIds (h : Always Proper events) : (claimedIds events).Nodup := by
  induction events using List.reverseRecOn with
  | nil => exact List.nodup_nil
  | append_singleton past e ih =>
    obtain ⟨hpast, he⟩ := always_concat.mp h
    rw [claimedIds_append]
    cases e with
    | claimed agentId task =>
      obtain ⟨p, ⟨heligible, -⟩, hid⟩ := he
      refine List.nodup_append.mpr ⟨ih hpast, by simp [claimedIds], ?_⟩
      rintro _ hclaimed _ hlast rfl
      obtain rfl := List.mem_singleton.mp hlast
      exact heligible.unclaimed (hid ▸ hclaimed)
    | posted id assignedTo at_ => simpa [claimedIds] using ih hpast
    | nothingFound agentId => simpa [claimedIds] using ih hpast
    | completed id => simpa [claimedIds] using ih hpast
    | failed e => simpa [claimedIds] using ih hpast

theorem queueSound_of_always (h : Always Proper events) : QueueSound events where
  once := nodup_claimedIds h
  assigned agentId task p hclaimed hp hid := by
    obtain ⟨past, rest, hsplit⟩ := List.append_of_mem hclaimed
    obtain ⟨q, ⟨heligible, -⟩, hq⟩ := h past _ rest hsplit
    have hmem : q ∈ posted events := by
      rw [hsplit, posted_append]
      exact List.mem_append_left _ heligible.posted
    have hsame : q = p :=
      List.inj_on_of_nodup_map (nodup_posted h) hmem hp (hq.trans hid.symm)
    exact hsame ▸ heligible.assigned
  oldest past agentId task rest hsplit := h past _ rest hsplit
  found past agentId rest hsplit := h past _ rest hsplit
  uncompleted past agentId task rest hsplit := by
    obtain ⟨p, ⟨heligible, -⟩, hid⟩ := h past _ rest hsplit
    exact hid ▸ heligible.uncompleted

end Purpose

section Rows

/-- A row tells what became of a posted task. -/
structure Agrees (past : List Event) (p : Posted) (row : TaskRow) : Prop where
  id : row.id = p.id
  createdAt : row.createdAt = toRfc3339 p.at_.nanos
  priority : row.priority = 0
  pending : row.status = .pending ↔ p.id ∉ claimedIds past ∧ p.id ∉ completedIds past
  assignedTo : row.status = .pending → row.assignedTo = p.assignedTo

/-- The table has a row for each posted task, and nothing else was claimed or completed. -/
structure Tracks (rows : List TaskRow) (past : List Event) : Prop where
  rows : List.Forall₂ (Agrees past) (posted past) rows
  proper : Always Proper past
  claimed : ∀ id ∈ claimedIds past, id ∈ (posted past).map Posted.id
  completed : ∀ id ∈ completedIds past, id ∈ (posted past).map Posted.id

variable {rows : List TaskRow} {past : List Event} {agentId : Str} {p q : Posted}
  {row other : TaskRow}

theorem eligible_iff (h : Agrees past p row) : eligible agentId row ↔
    (p.assignedTo = agentId ∨ p.assignedTo = []) ∧ p.id ∉ claimedIds past ∧
      p.id ∉ completedIds past := by
  rw [← h.pending]
  by_cases hpending : row.status = .pending
  · simp [eligible, hpending, h.assignedTo hpending]
  · simp [eligible, hpending]

theorem ordered_iff (hp : Agrees past p row) (hq : Agrees past q other) :
    ordered row other ↔ p.at_.nanos ≤ q.at_.nanos := by
  simp [ordered, hp.priority, hq.priority, hp.createdAt, hq.createdAt, toRfc3339_lt_iff]

theorem exists_row (h : List.Forall₂ (Agrees past) (posted past) rows) (hp : p ∈ posted past) :
    ∃ row ∈ rows, Agrees past p row := by
  obtain ⟨i, hi, rfl⟩ := List.mem_iff_getElem.mp hp
  have hi' : i < rows.length := h.length_eq ▸ hi
  exact ⟨rows[i], List.getElem_mem hi', h.get hi hi'⟩

theorem exists_posted (h : List.Forall₂ (Agrees past) (posted past) rows) (hrow : row ∈ rows) :
    ∃ p ∈ posted past, Agrees past p row := by
  obtain ⟨i, hi, rfl⟩ := List.mem_iff_getElem.mp hrow
  have hi' : i < (posted past).length := h.length_eq ▸ hi
  exact ⟨(posted past)[i], List.getElem_mem hi', h.get hi' hi⟩

theorem ids_eq {ps : List Posted} (h : List.Forall₂ (Agrees past) ps rows) :
    rows.map TaskRow.id = ps.map Posted.id := by
  induction h with
  | nil => rfl
  | cons hrow _ ih => rw [List.map_cons, List.map_cons, hrow.id, ih]

theorem mem_firstRows : row ∈ firstRows agentId rows ↔ row ∈ rows ∧ eligible agentId row ∧
    ∀ other ∈ rows, eligible agentId other → ordered row other := by
  have himp (other : TaskRow) : (!eligible agentId other || ordered row other) = true ↔
      (eligible agentId other → ordered row other) := by
    cases eligible agentId other <;> simp
  simp only [firstRows, List.mem_filter, Bool.and_eq_true, List.all_eq_true, himp]

theorem mem_of_selectFirst {pick : Nat} (h : selectFirst pick agentId rows = some row) :
    row ∈ firstRows agentId rows := by
  rw [selectFirst] at h
  cases hpick : (firstRows agentId rows)[pick]? with
  | some first =>
    rw [hpick] at h
    obtain rfl := Option.some.inj h
    exact List.mem_of_getElem? hpick
  | none =>
    rw [hpick] at h
    exact List.mem_of_head? h

theorem firstRows_of_selectFirst {pick : Nat} (h : selectFirst pick agentId rows = none) :
    firstRows agentId rows = [] := by
  rw [selectFirst, Option.or_eq_none_iff] at h
  exact List.head?_eq_none_iff.mp h.2

theorem eligible_of_posted (h : Agrees past p row) (hp : p ∈ posted past) :
    Eligible past agentId p ↔ eligible agentId row := by
  rw [eligible_iff h]
  constructor
  · intro he
    exact ⟨he.assigned, he.unclaimed, he.uncompleted⟩
  · intro ⟨hassigned, hclaimed, hcompleted⟩
    exact ⟨hp, hassigned, hclaimed, hcompleted⟩

/-- The rows that may come first are those of the oldest tasks. -/
theorem oldest_of_first (h : Tracks rows past) (hfirst : row ∈ firstRows agentId rows) :
    ∃ p, Oldest past agentId p ∧ Agrees past p row := by
  obtain ⟨hrow, heligible, hordered⟩ := mem_firstRows.mp hfirst
  obtain ⟨p, hp, hagrees⟩ := exists_posted h.rows hrow
  refine ⟨p, ⟨(eligible_of_posted hagrees hp).mpr heligible, fun q hq => ?_⟩, hagrees⟩
  obtain ⟨other, hother, hq'⟩ := exists_row h.rows hq.posted
  have heligible' := (eligible_of_posted hq' hq.posted).mp hq
  exact (ordered_iff hagrees hq').mp (hordered other hother heligible')

/-- As long as there is an eligible task, some row may come first. -/
theorem firstRows_ne_nil (h : Tracks rows past) (hp : Eligible past agentId p) :
    firstRows agentId rows ≠ [] := by
  classical
  let candidates := (posted past).filter fun q => decide (Eligible past agentId q)
  have hmem : p ∈ candidates := List.mem_filter.mpr ⟨hp.posted, decide_eq_true hp⟩
  obtain ⟨q, hq⟩ := Option.ne_none_iff_exists'.mp
    (fun hnone => List.ne_nil_of_mem hmem (List.argmin_eq_none.mp hnone) :
      List.argmin (fun q => q.at_.nanos) candidates ≠ none)
  have hqcandidate := List.mem_filter.mp (List.argmin_mem hq)
  obtain ⟨row, hrow, hagrees⟩ := exists_row h.rows hqcandidate.1
  have heligible := (eligible_of_posted hagrees hqcandidate.1).mp (of_decide_eq_true hqcandidate.2)
  apply List.ne_nil_of_mem
  refine mem_firstRows.mpr ⟨hrow, heligible, fun other hother heligible' => ?_⟩
  obtain ⟨q', hq', hagrees'⟩ := exists_posted h.rows hother
  have hcandidate := (eligible_of_posted hagrees' hq').mpr heligible'
  have hcandidates : q' ∈ candidates := List.mem_filter.mpr ⟨hq', decide_eq_true hcandidate⟩
  have hle := List.le_of_mem_argmin (f := fun q : Posted => q.at_.nanos) hcandidates hq
  exact (ordered_iff hagrees hagrees').mpr hle

end Rows

section Runs

variable {rows : List TaskRow} {past : List Event} {p : Posted} {row : TaskRow} {e : Event}

theorem Agrees.append (h : Agrees past p row) (hclaimed : p.id ∉ claimedIds [e])
    (hcompleted : p.id ∉ completedIds [e]) : Agrees (past ++ [e]) p row where
  id := h.id
  createdAt := h.createdAt
  priority := h.priority
  pending := by
    rw [h.pending, claimedIds_append, completedIds_append, List.mem_append, List.mem_append]
    simp [hclaimed, hcompleted]
  assignedTo := h.assignedTo

theorem Agrees.update (h : Agrees past p row) {set : TaskRow → TaskRow}
    (hid : (set row).id = row.id) (hcreated : (set row).createdAt = row.createdAt)
    (hpriority : (set row).priority = row.priority) (hstatus : (set row).status ≠ .pending)
    (he : p.id ∈ claimedIds [e] ∨ p.id ∈ completedIds [e]) : Agrees (past ++ [e]) p (set row) where
  id := hid.trans h.id
  createdAt := hcreated.trans h.createdAt
  priority := hpriority.trans h.priority
  pending := by
    refine iff_of_false hstatus ?_
    rw [claimedIds_append, completedIds_append, List.mem_append, List.mem_append]
    tauto
  assignedTo hpending := absurd hpending hstatus

/-- The rows follow an event that is about the one task `id`. -/
theorem agrees_updateId {ps : List Posted} (h : List.Forall₂ (Agrees past) ps rows) {id : Str}
    {set : TaskRow → TaskRow} (hid : ∀ row, (set row).id = row.id)
    (hcreated : ∀ row, (set row).createdAt = row.createdAt)
    (hpriority : ∀ row, (set row).priority = row.priority)
    (hstatus : ∀ row, (set row).status ≠ .pending)
    (he : claimedIds [e] ++ completedIds [e] = [id]) :
    List.Forall₂ (Agrees (past ++ [e])) ps (updateId id set rows) := by
  have hmem (id' : Str) : id' ∈ claimedIds [e] ∨ id' ∈ completedIds [e] ↔ id' = id := by
    rw [← List.mem_append, he, List.mem_singleton]
  induction h with
  | nil => exact .nil
  | @cons p row ps rows hrow _ ih =>
    refine .cons ?_ ih
    show Agrees (past ++ [e]) p (if row.id = id then set row else row)
    by_cases hrowid : row.id = id
    · rw [if_pos hrowid]
      exact hrow.update (hid row) (hcreated row) (hpriority row) (hstatus row)
        ((hmem p.id).mpr (hrow.id ▸ hrowid))
    · rw [if_neg hrowid]
      have hneither := mt (hmem p.id).mp (fun hpid => hrowid (hrow.id.trans hpid))
      exact hrow.append (fun hc => hneither (.inl hc)) fun hc => hneither (.inr hc)

theorem Tracks.append (h : Tracks rows past) {rows' : List TaskRow} (hposted : posted [e] = [])
    (hrows : List.Forall₂ (Agrees (past ++ [e])) (posted past) rows') (he : Proper past e)
    (hclaimed : ∀ id ∈ claimedIds [e], id ∈ (posted past).map Posted.id)
    (hcompleted : ∀ id ∈ completedIds [e], id ∈ (posted past).map Posted.id) :
    Tracks rows' (past ++ [e]) where
  rows := by
    rw [posted_append, hposted, List.append_nil]
    exact hrows
  proper := always_concat.mpr ⟨h.proper, he⟩
  claimed id hid := by
    rw [posted_append, hposted, List.append_nil]
    rw [claimedIds_append] at hid
    exact (List.mem_append.mp hid).elim (h.claimed id) (hclaimed id)
  completed id hid := by
    rw [posted_append, hposted, List.append_nil]
    rw [completedIds_append] at hid
    exact (List.mem_append.mp hid).elim (h.completed id) (hcompleted id)

/-- An event that is about no task. -/
theorem Tracks.quiet (h : Tracks rows past) (hposted : posted [e] = []) (he : Proper past e)
    (hclaimed : claimedIds [e] = []) (hcompleted : completedIds [e] = []) :
    Tracks rows (past ++ [e]) :=
  h.append hposted (h.rows.imp fun _ _ hrow => hrow.append (by simp [hclaimed])
    (by simp [hcompleted])) he (by simp [hclaimed]) (by simp [hcompleted])

theorem Tracks.step (h : Tracks rows past) (call : Call) :
    Tracks (step rows call).1 (past ++ (step rows call).2) := by
  obtain ⟨dbError, request⟩ := call
  cases dbError with
  | some e => exact h.quiet rfl trivial rfl rfl
  | none =>
    have hids := ids_eq h.rows
    have hany (id : Str) : rows.any (·.id = id) ↔ id ∈ (posted past).map Posted.id := by
      simp [← hids, List.any_eq_true]
    cases request with
    | post id now title description assignedTo createdBy =>
      by_cases hid : rows.any (·.id = id)
      · simp only [TaskQueue.step, taskPost, if_pos hid]
        exact h.quiet rfl trivial rfl rfl
      · have hnew : id ∉ (posted past).map Posted.id := mt (hany id).mpr hid
        simp only [TaskQueue.step, taskPost, if_neg hid]
        constructor
        · rw [posted_append]
          refine List.rel_append ?_ (.cons ?_ .nil)
          · exact h.rows.imp fun _ _ hrow => hrow.append (by simp [claimedIds])
              (by simp [completedIds])
          · refine ⟨rfl, rfl, rfl, iff_of_true rfl ⟨?_, ?_⟩, fun _ => rfl⟩
            · rw [claimedIds_append]
              simpa [claimedIds] using fun hc => hnew (h.claimed id hc)
            · rw [completedIds_append]
              simpa [completedIds] using fun hc => hnew (h.completed id hc)
        · exact always_concat.mpr ⟨h.proper, hnew⟩
        · intro id' hid'
          rw [posted_append, List.map_append]
          exact List.mem_append_left _ (h.claimed id' (by simpa [claimedIds] using hid'))
        · intro id' hid'
          rw [posted_append, List.map_append]
          exact List.mem_append_left _ (h.completed id' (by simpa [completedIds] using hid'))
    | claim pick agentId =>
      cases hselect : selectFirst pick agentId rows with
      | none =>
        simp only [TaskQueue.step, taskClaim, hselect]
        refine h.quiet rfl (fun p hp => ?_) rfl rfl
        exact firstRows_ne_nil h hp (firstRows_of_selectFirst hselect)
      | some row =>
        obtain ⟨p, holdest, hagrees⟩ := oldest_of_first h (mem_of_selectFirst hselect)
        have hposted : row.id ∈ (posted past).map Posted.id := by
          rw [hagrees.id]
          exact List.mem_map_of_mem holdest.1.posted
        simp only [TaskQueue.step, taskClaim, hselect]
        refine h.append rfl (agrees_updateId h.rows (fun _ => rfl) (fun _ => rfl) (fun _ => rfl)
          (by simp) rfl) ⟨p, holdest, hagrees.id.symm⟩ ?_ (by simp [completedIds])
        simpa [claimedIds, answer] using hposted
    | complete now taskId result =>
      by_cases hid : rows.any (·.id = taskId)
      · have hposted := (hany taskId).mp hid
        simp only [TaskQueue.step, taskComplete, if_pos hid]
        refine h.append rfl (agrees_updateId h.rows (fun _ => rfl) (fun _ => rfl) (fun _ => rfl)
          (by simp) rfl) hposted (by simp [claimedIds]) ?_
        simpa [completedIds] using hposted
      · simp only [TaskQueue.step, taskComplete, if_neg hid]
        exact h.quiet rfl trivial rfl rfl

/-- In every run from an empty table, whatever the calls and whoever makes them, the queue is
sound. -/
theorem queue_sound (calls : List Call) : QueueSound (run step [] calls).2 := by
  have hstart : Tracks [] [] := ⟨.nil, always_nil, by simp [claimedIds], by simp [completedIds]⟩
  have hrun := @run_invariant _ _ _ step Tracks (fun _ _ call h => h.step call) _ _ hstart calls
  exact queueSound_of_always hrun.proper

end Runs

end Clawreform.Memory.TaskQueue
