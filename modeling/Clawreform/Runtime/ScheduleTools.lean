import Clawreform.Lib.Calls
import Clawreform.Lib.Json

namespace Clawreform.Runtime.ScheduleTools

open Clawreform.Lib.Text Clawreform.Lib.Run Clawreform.Lib.Store Clawreform.Lib.Calls
open Clawreform.Lib.Json (Value)
open Clawreform.Lib.Json.Value

section Parsing

variable (toLowercase : Str → Str)

/-- Digits of a number that 32 bits hold, perhaps behind a plus. -/
def parseU32 (s : Str) : Option Nat :=
  let digits := (stripPrefix ['+'] s).getD s
  let n := Nat.ofDigitChars 10 digits 0
  if digits ≠ [] ∧ digits.all Char.isDigit ∧ n < 2 ^ 32 then some n else none

def stripSuffix (pat : String) (s : Str) : Option Str :=
  if pat.toList <:+ s then some (s.take (s.length - pat.toList.length)) else none

def hourOf (time hour : Str) : Except Str Nat :=
  (parseU32 hour).elim (.error ("Invalid time: ".toList ++ time)) .ok

/-- An hour of the twelve-hour clock; twelve itself stands for `twelve`. -/
def halfDay (time hour : Str) (twelve offset : Nat) : Except Str Nat := do
  let hour ← hourOf time (trim hour)
  if hour = 12 then .ok twelve
  else if 1 ≤ hour ∧ hour ≤ 11 then .ok (hour + offset)
  else .error ("Invalid hour: ".toList ++ showNat hour)

def wholeDay (time hour : Str) : Except Str Nat := do
  let hour ← hourOf time hour
  if hour > 23 then .error ("Hour must be 0-23, got ".toList ++ showNat hour) else .ok hour

/-- The minutes behind a colon are not looked at. -/
def parseTimeToHour (s : Str) : Except Str Nat :=
  let s := toLowercase (trim s)
  match stripSuffix "am" s, stripSuffix "pm" s with
  | some hour, _ => halfDay s hour 0 0
  | none, some hour => halfDay s hour 12 12
  | none, none =>
    if ':' ∈ s then wholeDay s (trim (s.takeWhile (· ≠ ':'))) else wholeDay s s

def isCronChar (c : Char) : Bool := c.isDigit || "*/,-".toList.contains c

def every (input count unit : Str) (limit : Nat) (lead tail : Str) : Except Str Str :=
  match parseU32 (trim count) with
  | none => .error ("Invalid number in '".toList ++ input ++ "'".toList)
  | some n =>
    if n = 0 ∨ n > limit then
      .error (unit ++ " must be 1-".toList ++ showNat limit ++ ", got ".toList ++ showNat n)
    else .ok (lead ++ showNat n ++ tail)

def isOne (rest : Str) (unit : String) : Bool :=
  rest = unit.toList || rest = "1 ".toList ++ unit.toList

/-- What may stand behind "every ". -/
def everyToCron (input rest : Str) : Option (Except Str Str) :=
  if isOne rest "minute" then some (.ok "* * * * *".toList)
  else
    match stripSuffix " minutes" rest with
    | some count =>
      some (every input count "Minutes".toList 59 "*/".toList " * * * *".toList)
    | none =>
      if isOne rest "hour" then some (.ok "0 * * * *".toList)
      else
        match stripSuffix " hours" rest with
        | some count => some (every input count "Hours".toList 23 "0 */".toList " * * *".toList)
        | none =>
          if isOne rest "day" then some (.ok "0 0 * * *".toList)
          else if isOne rest "week" then some (.ok "0 0 * * 0".toList)
          else none

def atHour (input : Str) (pre : String) (days : String) : Option (Except Str Str) :=
  (stripPrefix pre.toList input).map fun time => do
    let hour ← parseTimeToHour toLowercase time
    .ok ("0 ".toList ++ showNat hour ++ days.toList)

def namedSchedules : List (String × String) :=
  [("hourly", "0 * * * *"), ("daily", "0 0 * * *"), ("weekly", "0 0 * * 0"),
    ("monthly", "0 0 1 * *")]

def namedToCron (input : Str) : Option (Except Str Str) :=
  (namedSchedules.find? fun named => named.1.toList = input).map fun named => .ok named.2.toList

def notParsed (input : Str) : Str :=
  "Could not parse schedule '".toList ++ input ++ ("'. Try: 'every 5 minutes', 'daily at 9am', " ++
    "'weekdays at 6pm', or a cron expression like '0 */5 * * *'").toList

/-- Five fields of a cron expression are passed through. -/
def parseScheduleToCron (input : Str) : Except Str Str :=
  let input := toLowercase (trim input)
  let parts := splitWhitespace input
  if parts.length = 5 ∧ parts.all (·.all isCronChar) then .ok input
  else
    let read := ((stripPrefix "every ".toList input).bind (everyToCron input)).or
      ((atHour toLowercase input "daily at " " * * *").or
        ((atHour toLowercase input "weekdays at " " * * 1-5").or
          ((atHour toLowercase input "weekends at " " * * 0,6").or (namedToCron input))))
    read.getD (.error (notParsed input))

end Parsing

section Calls

/-- The id is the text of the drawn uuid. -/
structure Schedule where
  id : Str
  description : Str
  scheduleInput : Str
  cron : Str
  agent : Str
  createdAt : Str
  deriving DecidableEq

def Schedule.toJson (schedule : Schedule) : Value :=
  obj [("agent", .string schedule.agent), ("created_at", .string schedule.createdAt),
    ("cron", .string schedule.cron), ("description", .string schedule.description),
    ("enabled", .bool true), ("id", .string schedule.id),
    ("schedule_input", .string schedule.scheduleInput)]

inductive ScheduleCall where
  | create (input : Value)
  | delete (input : Value)
  deriving DecidableEq

/-- How a call changes the list it has read. -/
inductive Edit where
  | create (schedule : Schedule)
  | delete (id : Str)
  deriving DecidableEq

def idOf (schedule : Value) : Option Str := (schedule.index "id").asStr

def Edit.apply : Edit → List Value → List Value
  | .create schedule, schedules => schedules ++ [schedule.toJson]
  | .delete id, schedules => schedules.filter fun schedule => idOf schedule ≠ some id

def Edit.answer : Edit → Str
  | .create schedule =>
    "Schedule created:\n  ID: ".toList ++ schedule.id ++ "\n  Description: ".toList ++
      schedule.description ++ "\n  Cron: ".toList ++ schedule.cron ++ "\n  Original: ".toList ++
      schedule.scheduleInput
  | .delete id => "Schedule '".toList ++ id ++ "' deleted.".toList

/-- Where a call stands: in front of its `memory_recall`, between that and its `memory_store`, or
at its end. -/
inductive Phase where
  | creating (description scheduleInput cron agent : Str)
  | deleting (id : Str)
  | storing (edit : Edit) (schedules : List Value)
  | returned (answer : Except Str Str)
  deriving DecidableEq

/-- The clock, and the errors of the memory. -/
structure Env where
  createdAt : Str
  recallError : Option Str
  storeError : Option Str
  deriving DecidableEq

variable (toLowercase : Str → Str) (hasKernel : Bool) (draw : CallId → Str)

def noKernel : Str :=
  "Kernel handle not available. Inter-agent tools require a running kernel.".toList

def missing (name : String) : Str := "Missing '".toList ++ name.toList ++ "' parameter".toList

def field (input : Value) (name : String) : Except Str Str :=
  (input.index name).asStr.elim (.error (missing name)) .ok

def toolScheduleCreate (input : Value) : Except Str Phase := do
  let description ← field input "description"
  let scheduleInput ← field input "schedule"
  let agent := (input.index "agent").asStr.getD []
  let cron ← parseScheduleToCron toLowercase scheduleInput
  .ok (.creating description scheduleInput cron agent)

def toolScheduleDelete (input : Value) : Except Str Phase := do
  let id ← field input "id"
  .ok (.deleting id)

def begun : Except Str Phase → Phase
  | .ok phase => phase
  | .error e => .returned (.error e)

def ScheduleCall.first (call : ScheduleCall) : Phase :=
  if hasKernel then
    match call with
    | .create input => begun (toolScheduleCreate toLowercase input)
    | .delete input => begun (toolScheduleDelete input)
  else .returned (.error noKernel)

/-- Whatever is stored that is no list counts as an empty one. -/
def schedulesOf (stored : Option Value) : List Value := (stored.bind asArray).getD []

def Phase.advance (env : Env) (call : CallId) (stored : Option Value) :
    Phase → (Option Value × Phase) × List Edit
  | .creating description scheduleInput cron agent =>
    match env.recallError with
    | some e => ((stored, .returned (.error e)), [])
    | none =>
      let schedule := ⟨draw call, description, scheduleInput, cron, agent, env.createdAt⟩
      ((stored, .storing (.create schedule) (schedulesOf stored)), [])
  | .deleting id =>
    match env.recallError with
    | some e => ((stored, .returned (.error e)), [])
    | none =>
      let schedules := schedulesOf stored
      if ((Edit.delete id).apply schedules).length = schedules.length then
        ((stored, .returned (.error ("Schedule '".toList ++ id ++ "' not found.".toList))), [])
      else ((stored, .storing (.delete id) schedules), [])
  | .storing edit schedules =>
    match env.storeError with
    | some e => ((stored, .returned (.error e)), [])
    | none =>
      ((some (.array (edit.apply schedules)), .returned (.ok edit.answer)), [edit])
  | .returned answer => ((stored, .returned answer), [])

/-- The calls that share the memory. Each create call draws an id of its own. -/
def scheduleTools : Machine (Option Value) Phase ScheduleCall Env Edit where
  first := ScheduleCall.first toLowercase hasKernel
  advance := Phase.advance draw

end Calls

section Record

def created (past : List Edit) : List Value :=
  past.filterMap fun
    | .create schedule => some schedule.toJson
    | .delete _ => none

def deleted (past : List Edit) : List Str :=
  past.filterMap fun
    | .create _ => none
    | .delete id => some id

def known (initial : List Value) (past : List Edit) : List Value := initial ++ created past

/-- The schedules that were created and not deleted. -/
def remaining (initial : List Value) (past : List Edit) : List Value :=
  (known initial past).filter fun schedule => ∀ id ∈ deleted past, idOf schedule ≠ some id

/-- The stored list is the one that the calls that succeeded account for. -/
def Exact (stored : Option Value) (r : System (Option Value) Phase × List Edit) : Prop :=
  schedulesOf r.1.shared = remaining (schedulesOf stored) r.2

instance (stored : Option Value) (r : System (Option Value) Phase × List Edit) :
    Decidable (Exact stored r) :=
  inferInstanceAs (Decidable (_ = _))

/-- A list is written back only when the change makes the same of the list that is stored then. -/
def Timely (env : Env) (_ : CallId) (stored : Option Value) : Phase → Prop
  | .storing edit schedules =>
    env.storeError = none → edit.apply schedules = edit.apply (schedulesOf stored)
  | _ => True

instance (env : Env) (call : CallId) (stored : Option Value) :
    (p : Phase) → Decidable (Timely env call stored p)
  | .storing edit schedules =>
    inferInstanceAs (Decidable (env.storeError = none →
      edit.apply schedules = edit.apply (schedulesOf stored)))
  | .creating _ _ _ _ => inferInstanceAs (Decidable True)
  | .deleting _ => inferInstanceAs (Decidable True)
  | .returned _ => inferInstanceAs (Decidable True)

abbrev ScheduleMove := Move ScheduleCall Env

def moved : ScheduleMove → CallId
  | .call id _ => id
  | .step id _ => id

/-- The ids that the calls draw differ, and no schedule has one of them before. -/
structure Fresh (draw : CallId → Str) (stored : Option Value) (ms : List ScheduleMove) : Prop where
  distinct : ∀ m ∈ ms, ∀ m' ∈ ms, draw (moved m) = draw (moved m') → moved m = moved m'
  unused : ∀ m ∈ ms, ∀ schedule ∈ schedulesOf stored, idOf schedule ≠ some (draw (moved m))

theorem known_create (initial : List Value) (past : List Edit) (schedule : Schedule) :
    known initial (past ++ [Edit.create schedule]) = known initial past ++ [schedule.toJson] := by
  simp [known, created]

theorem known_delete (initial : List Value) (past : List Edit) (id : Str) :
    known initial (past ++ [Edit.delete id]) = known initial past := by
  simp [known, created]

theorem deleted_create (past : List Edit) (schedule : Schedule) :
    deleted (past ++ [Edit.create schedule]) = deleted past := by
  simp [deleted]

theorem deleted_delete (past : List Edit) (id : Str) :
    deleted (past ++ [Edit.delete id]) = deleted past ++ [id] := by
  simp [deleted]

theorem idOf_toJson (schedule : Schedule) : idOf schedule.toJson = some schedule.id := by
  simp [idOf, Schedule.toJson, index_obj_cons]

theorem remaining_create {initial : List Value} {past : List Edit} {schedule : Schedule}
    (h : schedule.id ∉ deleted past) :
    remaining initial (past ++ [Edit.create schedule]) =
      (Edit.create schedule).apply (remaining initial past) := by
  have hkept : ∀ id ∈ deleted past, idOf schedule.toJson ≠ some id := by
    intro id hid he
    rw [idOf_toJson] at he
    exact h (Option.some.inj he ▸ hid)
  rw [remaining, known_create, deleted_create, List.filter_append, Edit.apply, remaining,
    List.filter_cons_of_pos (by simpa using hkept), List.filter_nil]

theorem remaining_delete (initial : List Value) (past : List Edit) (id : Str) :
    remaining initial (past ++ [Edit.delete id]) =
      (Edit.delete id).apply (remaining initial past) := by
  rw [remaining, known_delete, deleted_delete, Edit.apply, remaining, List.filter_filter]
  apply List.filter_congr
  intro schedule _
  simp [or_imp, forall_and, and_comm]

end Record

section Runs

variable {toLowercase : Str → Str} {hasKernel : Bool} {draw : CallId → Str}
variable {initial : List Value}

/-- What every list that was read, and every id that was drawn or deleted, comes from. -/
structure Known (draw : CallId → Str) (calls : List CallId) (initial : List Value)
    (s : System (Option Value) Phase) (past : List Edit) : Prop where
  stored : ∀ schedule ∈ schedulesOf s.shared, schedule ∈ known initial past
  deleted : ∀ id ∈ deleted past, ∃ schedule ∈ known initial past, idOf schedule = some id
  unused : ∀ call ∈ calls, ∀ schedule ∈ created past, idOf schedule = some (draw call) →
    ∃ answer, s.calls.lookup call = some (.returned answer)
  drawn : ∀ call schedule schedules,
    s.calls.lookup call = some (.storing (.create schedule) schedules) → schedule.id = draw call
  read : ∀ call edit schedules, s.calls.lookup call = some (.storing edit schedules) →
    ∀ schedule ∈ schedules, schedule ∈ known initial past
  found : ∀ call id schedules, s.calls.lookup call = some (.storing (.delete id) schedules) →
    ∃ schedule ∈ schedules, idOf schedule = some id

variable {calls : List CallId} {s : System (Option Value) Phase} {past : List Edit} {call : CallId}

/-- A call that was not made yet, or does not store its list yet, begins or returns. -/
theorem Known.quiet (h : Known draw calls initial s past) {p : Phase}
    (hp : ∀ edit schedules, p ≠ .storing edit schedules)
    (hcall : ∀ answer, s.calls.lookup call = some (.returned answer) → p = .returned answer) :
    Known draw calls initial ⟨s.shared, s.calls.insert call p⟩ past where
  stored := h.stored
  deleted := h.deleted
  unused other hother schedule hschedule hid := by
    obtain ⟨answer, hreturned⟩ := h.unused other hother schedule hschedule hid
    refine ⟨answer, ?_⟩
    rw [lookup_insert]
    split
    · rename_i he
      rw [hcall answer (he ▸ hreturned)]
    · exact hreturned
  drawn other schedule schedules hother := by
    rw [lookup_insert] at hother
    split at hother
    · exact absurd (Option.some.inj hother) (hp _ _)
    · exact h.drawn other schedule schedules hother
  read other edit schedules hother := by
    rw [lookup_insert] at hother
    split at hother
    · exact absurd (Option.some.inj hother) (hp _ _)
    · exact h.read other edit schedules hother
  found other id schedules hother := by
    rw [lookup_insert] at hother
    split at hother
    · exact absurd (Option.some.inj hother) (hp _ _)
    · exact h.found other id schedules hother

/-- A call has read the list. -/
theorem Known.recalled (h : Known draw calls initial s past) {edit : Edit}
    (hcall : ∀ answer, s.calls.lookup call ≠ some (.returned answer))
    (hdrawn : ∀ schedule, edit = .create schedule → schedule.id = draw call)
    (hfound : ∀ id, edit = .delete id →
      ∃ schedule ∈ schedulesOf s.shared, idOf schedule = some id) :
    Known draw calls initial
      ⟨s.shared, s.calls.insert call (.storing edit (schedulesOf s.shared))⟩ past where
  stored := h.stored
  deleted := h.deleted
  unused other hother schedule hschedule hid := by
    obtain ⟨answer, hreturned⟩ := h.unused other hother schedule hschedule hid
    refine ⟨answer, ?_⟩
    rw [lookup_insert, if_neg, hreturned]
    intro he
    exact hcall answer (he ▸ hreturned)
  drawn other schedule schedules hother := by
    rw [lookup_insert] at hother
    split at hother
    · rename_i he
      cases hother
      rw [he]
      exact hdrawn schedule rfl
    · exact h.drawn other schedule schedules hother
  read other edit' schedules hother := by
    rw [lookup_insert] at hother
    split at hother
    · cases hother
      exact h.stored
    · exact h.read other edit' schedules hother
  found other id schedules hother := by
    rw [lookup_insert] at hother
    split at hother
    · cases hother
      exact hfound id rfl
    · exact h.found other id schedules hother

theorem mem_known_concat {schedule : Value} (edit : Edit) (h : schedule ∈ known initial past) :
    schedule ∈ known initial (past ++ [edit]) := by
  cases edit with
  | create schedule' =>
    rw [known_create]
    exact List.mem_append_left _ h
  | delete id => rwa [known_delete]

theorem mem_apply {edit : Edit} {schedules : List Value}
    (h : ∀ schedule ∈ schedules, schedule ∈ known initial past) :
    ∀ schedule ∈ edit.apply schedules, schedule ∈ known initial (past ++ [edit]) := by
  intro schedule hschedule
  cases edit with
  | create schedule' =>
    obtain hold | hnew := List.mem_append.mp hschedule
    · exact mem_known_concat _ (h schedule hold)
    · rw [known_create]
      exact List.mem_append_right _ hnew
  | delete id => exact mem_known_concat _ (h schedule (List.mem_filter.mp hschedule).1)

/-- A call writes the list back. -/
theorem Known.store (h : Known draw calls initial s past) {edit : Edit} {schedules : List Value}
    (hcall : s.calls.lookup call = some (.storing edit schedules))
    (hdistinct : ∀ other ∈ calls, draw other = draw call → other = call) :
    Known draw calls initial ⟨some (.array (edit.apply schedules)),
      s.calls.insert call (.returned (.ok edit.answer))⟩ (past ++ [edit]) where
  stored := mem_apply (h.read call edit schedules hcall)
  deleted id hid := by
    cases edit with
    | create schedule =>
      rw [deleted_create] at hid
      obtain ⟨schedule', hmem', he⟩ := h.deleted id hid
      exact ⟨schedule', mem_known_concat _ hmem', he⟩
    | delete id' =>
      rw [deleted_delete] at hid
      obtain hold | hnew := List.mem_append.mp hid
      · obtain ⟨schedule', hmem', he⟩ := h.deleted id hold
        exact ⟨schedule', mem_known_concat _ hmem', he⟩
      · rw [List.mem_singleton.mp hnew]
        obtain ⟨schedule', hmem', he⟩ := h.found call id' schedules hcall
        exact ⟨schedule', mem_known_concat _ (h.read call _ _ hcall schedule' hmem'), he⟩
  unused other hother schedule hschedule hid := by
    by_cases he : other = call
    · exact ⟨.ok edit.answer, by rw [he, lookup_insert, if_pos rfl]⟩
    · have hold : schedule ∈ created past := by
        cases edit with
        | delete id => simpa [created] using hschedule
        | create schedule' =>
          have hcases : schedule ∈ created past ∨ schedule = schedule'.toJson := by
            simpa [created] using hschedule
          obtain hold | rfl := hcases
          · exact hold
          · rw [idOf_toJson, h.drawn call schedule' schedules hcall] at hid
            exact absurd (hdistinct other hother (Option.some.inj hid).symm) he
      obtain ⟨answer, hreturned⟩ := h.unused other hother schedule hold hid
      exact ⟨answer, by rw [lookup_insert, if_neg he, hreturned]⟩
  drawn other schedule schedules' hother := by
    rw [lookup_insert] at hother
    split at hother
    · cases hother
    · exact h.drawn other schedule schedules' hother
  read other edit' schedules' hother schedule hschedule := by
    rw [lookup_insert] at hother
    split at hother
    · cases hother
    · exact mem_known_concat _ (h.read other edit' schedules' hother schedule hschedule)
  found other id schedules' hother := by
    rw [lookup_insert] at hother
    split at hother
    · cases hother
    · exact h.found other id schedules' hother

theorem begun_ne_storing {result : Except Str Phase}
    (h : ∀ edit schedules, result ≠ .ok (.storing edit schedules)) (edit : Edit)
    (schedules : List Value) : begun result ≠ .storing edit schedules := by
  cases result with
  | error e => exact Phase.noConfusion
  | ok p => exact fun he => h edit schedules (congrArg Except.ok he)

theorem create_ne_storing (input : Value) (edit : Edit) (schedules : List Value) :
    toolScheduleCreate toLowercase input ≠ .ok (.storing edit schedules) := by
  intro h
  simp only [toolScheduleCreate, field] at h
  cases hdescription : (input.index "description").asStr with
  | none => simp [hdescription, Bind.bind, Except.bind] at h
  | some description =>
    cases hschedule : (input.index "schedule").asStr with
    | none => simp [hdescription, hschedule, Bind.bind, Except.bind] at h
    | some scheduleInput =>
      cases hcron : parseScheduleToCron toLowercase scheduleInput <;>
        simp [hdescription, hschedule, hcron, Bind.bind, Except.bind] at h

theorem delete_ne_storing (input : Value) (edit : Edit) (schedules : List Value) :
    toolScheduleDelete input ≠ .ok (.storing edit schedules) := by
  intro h
  cases hid : (input.index "id").asStr <;>
    simp [toolScheduleDelete, field, hid, Bind.bind, Except.bind] at h

theorem first_ne_storing (input : ScheduleCall) (edit : Edit) (schedules : List Value) :
    input.first toLowercase hasKernel ≠ .storing edit schedules := by
  cases hasKernel with
  | false => exact Phase.noConfusion
  | true =>
    cases input with
    | create input => exact begun_ne_storing (create_ne_storing input) edit schedules
    | delete input => exact begun_ne_storing (delete_ne_storing input) edit schedules

theorem Known.step (h : Known draw calls initial s past) (m : ScheduleMove)
    (hdistinct : ∀ other ∈ calls, draw other = draw (moved m) → other = moved m) :
    Known draw calls initial ((scheduleTools toLowercase hasKernel draw).step s m).1
      (past ++ ((scheduleTools toLowercase hasKernel draw).step s m).2) := by
  cases m with
  | call id input =>
    cases hcall : s.calls.lookup id with
    | some p => simpa [Machine.step, hcall] using h
    | none =>
      simp only [Machine.step, hcall, List.append_nil]
      exact h.quiet (first_ne_storing input) fun answer he => by simp [hcall] at he
  | step id env =>
    cases hcall : s.calls.lookup id with
    | none => simpa [Machine.step, hcall] using h
    | some p =>
      simp only [Machine.step, hcall, scheduleTools]
      cases p with
      | creating description scheduleInput cron agent =>
        cases hrecall : env.recallError with
        | some e =>
          simp only [Phase.advance, hrecall, List.append_nil]
          exact h.quiet (by simp) fun answer he => by simp [hcall] at he
        | none =>
          simp only [Phase.advance, hrecall, List.append_nil]
          exact h.recalled (by simp [hcall]) (by rintro _ ⟨⟩; rfl) (by simp)
      | deleting target =>
        cases hrecall : env.recallError with
        | some e =>
          simp only [Phase.advance, hrecall, List.append_nil]
          exact h.quiet (by simp) fun answer he => by simp [hcall] at he
        | none =>
          simp only [Phase.advance, hrecall]
          split
          · rw [List.append_nil]
            exact h.quiet (by simp) fun answer he => by simp [hcall] at he
          · rename_i hlength
            rw [List.append_nil]
            refine h.recalled (by simp [hcall]) (by simp) fun id hid => ?_
            cases hid
            by_contra hnone
            apply hlength
            rw [Edit.apply, List.filter_eq_self.mpr]
            simpa using hnone
      | storing edit schedules =>
        cases hstore : env.storeError with
        | some e =>
          simp only [Phase.advance, hstore, List.append_nil]
          exact h.quiet (by simp) fun answer he => by simp [hcall] at he
        | none =>
          simp only [Phase.advance, hstore]
          exact h.store hcall hdistinct
      | returned answer =>
        simp only [Phase.advance, List.append_nil]
        refine h.quiet (by simp) fun answer' he => ?_
        rw [hcall] at he
        exact (Option.some.inj he)

theorem known_run {stored : Option Value} {ms : List ScheduleMove} (h : Fresh draw stored ms)
    {js : List ScheduleMove} (hjs : js <+: ms) :
    Known draw (ms.map moved) (schedulesOf stored)
      (run (scheduleTools toLowercase hasKernel draw).step (.start stored) js).1
      (run (scheduleTools toLowercase hasKernel draw).step (.start stored) js).2 := by
  induction js using List.reverseRecOn with
  | nil =>
    constructor <;> simp [System.start, known, created, deleted]
  | append_singleton js m ih =>
    have hmem : m ∈ ms := hjs.subset (by simp)
    rw [run_append, run_cons, run_nil, List.append_nil]
    apply (ih ((List.prefix_append js [m]).trans hjs)).step
    intro other hother he
    obtain ⟨m', hm', rfl⟩ := List.mem_map.mp hother
    exact h.distinct m' hm' m hmem he

/-- A step keeps the list exact exactly when it does not write over a change it has not read. -/
theorem exact_step {stored : Option Value} (m : ScheduleMove) (hmem : moved m ∈ calls)
    (hunused : ∀ schedule ∈ schedulesOf stored, idOf schedule ≠ some (draw (moved m)))
    (h : Known draw calls (schedulesOf stored) s past) (hexact : Exact stored (s, past)) :
    Exact stored (((scheduleTools toLowercase hasKernel draw).step s m).1,
        past ++ ((scheduleTools toLowercase hasKernel draw).step s m).2) ↔
      Permits Timely s m := by
  have hquiet (calls' : Map CallId Phase) : Exact stored (⟨s.shared, calls'⟩, past ++ []) := by
    rw [List.append_nil]
    exact hexact
  cases m with
  | call id input =>
    refine iff_of_true ?_ trivial
    cases hcall : s.calls.lookup id <;> simp only [Machine.step, hcall] <;> exact hquiet _
  | step id env =>
    cases hcall : s.calls.lookup id with
    | none =>
      simp only [Machine.step, hcall, Permits]
      exact iff_of_true (hquiet _) (by simp)
    | some p =>
      simp only [Machine.step, hcall, Permits, scheduleTools, Option.some.injEq, forall_eq']
      cases p with
      | creating description scheduleInput cron agent =>
        refine iff_of_true ?_ trivial
        cases hrecall : env.recallError <;> simp only [Phase.advance, hrecall] <;> exact hquiet _
      | deleting target =>
        refine iff_of_true ?_ trivial
        cases hrecall : env.recallError with
        | some e =>
          simp only [Phase.advance, hrecall]
          exact hquiet _
        | none =>
          simp only [Phase.advance, hrecall]
          split <;> exact hquiet _
      | returned answer => exact iff_of_true (hquiet _) trivial
      | storing edit schedules =>
        cases hstore : env.storeError with
        | some e =>
          simp only [Phase.advance, hstore]
          exact iff_of_true (hquiet _) (by simp [Timely, hstore])
        | none =>
          have hremaining : remaining (schedulesOf stored) (past ++ [edit]) =
              edit.apply (schedulesOf s.shared) := by
            rw [hexact]
            cases edit with
            | delete target => exact remaining_delete _ _ _
            | create schedule =>
              apply remaining_create
              intro hdeleted
              obtain ⟨schedule', hschedule', hid⟩ := h.deleted _ hdeleted
              rw [h.drawn id schedule schedules hcall] at hid
              obtain hold | hnew := List.mem_append.mp hschedule'
              · exact hunused schedule' hold hid
              · obtain ⟨answer, hanswer⟩ := h.unused id hmem schedule' hnew hid
                simp [hcall] at hanswer
          simp only [Phase.advance, hstore, Exact, hremaining, Timely, forall_const]
          rfl

/-- After every step of every run the stored list is exact, if and only if no call writes over a
change that it has not read. -/
theorem schedules_exact_iff {stored : Option Value} {ms : List ScheduleMove}
    (h : Fresh draw stored ms) :
    (∀ js, js <+: ms →
        Exact stored (run (scheduleTools toLowercase hasKernel draw).step (.start stored) js)) ↔
      Allowed (scheduleTools toLowercase hasKernel draw).step (Permits Timely)
        (.start stored) ms := by
  have hstep {js : List ScheduleMove} {m : ScheduleMove} (hjs : js ++ [m] <+: ms)
      (hexact : Exact stored
        (run (scheduleTools toLowercase hasKernel draw).step (.start stored) js)) :
      Exact stored (run (scheduleTools toLowercase hasKernel draw).step (.start stored)
          (js ++ [m])) ↔
        Permits Timely
          (run (scheduleTools toLowercase hasKernel draw).step (.start stored) js).1 m := by
    have hmem : m ∈ ms := hjs.subset (by simp)
    have hknown := @known_run toLowercase hasKernel _ _ _ h _
      ((List.prefix_append js [m]).trans hjs)
    rw [run_append, run_cons, run_nil, List.append_nil]
    exact exact_step m (List.mem_map_of_mem hmem) (h.unused m hmem) hknown hexact
  rw [allowed_iff_splits]
  constructor
  · rintro hall before m after rfl
    have hsplit : before ++ [m] <+: before ++ m :: after := ⟨after, by simp⟩
    exact (hstep hsplit (hall before (List.prefix_append _ _))).mp (hall _ hsplit)
  · intro hall js hjs
    induction js using List.reverseRecOn with
    | nil => simp [Exact, System.start, remaining, known, created, deleted]
    | append_singleton js m ih =>
      obtain ⟨after, hafter⟩ := hjs
      have hsplit : ms = js ++ m :: after := by simp [← hafter]
      have hprefix : js <+: ms := ⟨m :: after, hsplit.symm⟩
      exact (hstep ⟨after, hafter⟩ (ih hprefix)).mpr (hall js m after hsplit)

end Runs

section Examples

def quietEnv : Env := ⟨"2026-01-01T00:00:00+00:00".toList, none, none⟩

def drawnId (call : CallId) : Str := showNat call

def everyHour (description : String) : ScheduleCall :=
  .create (obj [("description", .string description.toList), ("schedule", .string "hourly".toList)])

/-- Two agents create a schedule each, and both read the list before one of them writes it. -/
def twoCreates : List ScheduleMove :=
  [.call 1 (everyHour "water the plants"), .call 2 (everyHour "feed the cat"),
    .step 1 quietEnv, .step 2 quietEnv, .step 1 quietEnv, .step 2 quietEnv]

/-- One creates, then the other. -/
def twoCreatesInTurn : List ScheduleMove :=
  [.call 1 (everyHour "water the plants"), .step 1 quietEnv, .step 1 quietEnv,
    .call 2 (everyHour "feed the cat"), .step 2 quietEnv, .step 2 quietEnv]

theorem schedules_exact_in_turn :
    (∀ js, js <+: twoCreatesInTurn →
        Exact none (run (scheduleTools id true drawnId).step (.start none) js)) ↔
      Allowed (scheduleTools id true drawnId).step (Permits Timely) (.start none)
        twoCreatesInTurn :=
  schedules_exact_iff ⟨by decide +kernel, by decide +kernel⟩

def Phase.succeeded : Phase → Bool
  | .returned (.ok _) => true
  | _ => false

/-- Both calls return without an error, and the first schedule is lost. -/
theorem first_schedule_lost :
    let r := run (scheduleTools id true drawnId).step (.start none) twoCreates
    (values r.1.calls).all Phase.succeeded ∧ ¬ Exact none r := by
  decide +kernel

end Examples

end Clawreform.Runtime.ScheduleTools
