import Clawreform.Lib.CronExpr
import Clawreform.Runtime.ScheduleTools

namespace Clawreform.Runtime.ScheduleMeaning

open Clawreform.Lib.Text Clawreform.Lib.Calendar Clawreform.Lib.CronExpr
open Clawreform.Runtime.ScheduleTools

section Phrases

inductive Days where
  | daily
  | weekdays
  | weekends
  deriving DecidableEq

inductive Period where
  | minute
  | hour
  | day
  | week
  deriving DecidableEq

/-- What is said by a schedule text. The time of a daily one is still its text. -/
inductive Phrase where
  | expression (expr : Str)
  | each (period : Period)
  | minutes (n : Nat) (pos : 0 < n)
  | hours (n : Nat) (pos : 0 < n)
  | monthly
  | at (days : Days) (time : Str)

def Days.Has : Days → Nat → Prop
  | daily, _ => True
  | weekdays, t => 1 ≤ dayOfWeek t ∧ dayOfWeek t ≤ 5
  | weekends, t => dayOfWeek t = 0 ∨ dayOfWeek t = 6

def Period.length : Period → Nat
  | minute => 1
  | hour => 60
  | day => 1440
  | week => 10080

variable (toLowercase : Str → Str)

/-- The minute a time says: the number behind the colon, or the full hour without one. -/
def minuteOf (time : Str) : Option Nat :=
  let s := toLowercase (trim time)
  if (stripSuffix "am" s).isSome ∨ (stripSuffix "pm" s).isSome ∨ ':' ∉ s then some 0
  else
    match parseU32 (trim (s.dropWhile (· ≠ ':')).tail) with
    | some m => if m < 60 then some m else none
    | none => none

/-- The hour a time says, on the clock of twelve hours or on that of twenty-four. -/
def clockHour (time : Str) : Option Nat :=
  let s := toLowercase (trim time)
  match stripSuffix "am" s, stripSuffix "pm" s with
  | some h, _ => (parseU32 (trim h)).bind fun h => if 1 ≤ h ∧ h ≤ 12 then some (h % 12) else none
  | none, some h =>
    (parseU32 (trim h)).bind fun h => if 1 ≤ h ∧ h ≤ 12 then some (h % 12 + 12) else none
  | none, none =>
    (parseU32 (if ':' ∈ s then trim (s.takeWhile (· ≠ ':')) else s)).bind fun h =>
      if h ≤ 23 then some h else none

def countPhrase (count : Str) (limit : Nat) (make : ∀ n, 0 < n → Phrase) : Option Phrase :=
  (parseU32 (trim count)).bind fun n =>
    if h : 0 < n then if n ≤ limit then some (make n h) else none else none

def everyPhrase (rest : Str) : Option Phrase :=
  if isOne rest "minute" then some (.each .minute)
  else
    match stripSuffix " minutes" rest with
    | some count => countPhrase count 59 .minutes
    | none =>
      if isOne rest "hour" then some (.each .hour)
      else
        match stripSuffix " hours" rest with
        | some count => countPhrase count 23 .hours
        | none =>
          if isOne rest "day" then some (.each .day)
          else if isOne rest "week" then some (.each .week)
          else none

def atPhrase (input : Str) (pre : String) (days : Days) : Option Phrase :=
  (stripPrefix pre.toList input).map (.at days)

def namedPhrase (input : Str) : Option Phrase :=
  if input = "hourly".toList then some (.each .hour)
  else if input = "daily".toList then some (.each .day)
  else if input = "weekly".toList then some (.each .week)
  else if input = "monthly".toList then some .monthly
  else none

/-- What a text says, once it is trimmed and in lower case. -/
def phrase (input : Str) : Option Phrase :=
  let parts := splitWhitespace input
  if parts.length = 5 ∧ parts.all (·.all isCronChar) then some (.expression input)
  else
    ((stripPrefix "every ".toList input).bind everyPhrase).or
      ((atPhrase input "daily at " .daily).or ((atPhrase input "weekdays at " .weekdays).or
        ((atPhrase input "weekends at " .weekends).or (namedPhrase input))))

/-- The sets of instants a phrase may mean. What comes again and again may begin anywhere. -/
def Phrase.Says : Phrase → (Nat → Prop) → Prop
  | .expression expr, S => ∀ t, S t ↔ fires expr t = true
  | .each period, S => Apart period.length S
  | .minutes n _, S => Apart n S
  | .hours n _, S => Apart (60 * n) S
  | .monthly, S => ∃ d h m, 1 ≤ d ∧ d ≤ 28 ∧ h < 24 ∧ m < 60 ∧
      ∀ t, S t ↔ dayOfMonth (day t) = d ∧ hour t = h ∧ minute t = m
  | .at days time, S => ∃ h m, clockHour toLowercase time = some h ∧
      minuteOf toLowercase time = some m ∧ ∀ t, S t ↔ days.Has t ∧ hour t = h ∧ minute t = m

/-- A number of minutes or hours fits into the hour or the day, and a time is a full hour. -/
def Phrase.Sound : Phrase → Prop
  | .minutes n _ => n ∣ 60
  | .hours n _ => n ∣ 24
  | .at _ time => minuteOf toLowercase time = some 0
  | _ => True

def Days.suffix : Days → String
  | daily => " * * *"
  | weekdays => " * * 1-5"
  | weekends => " * * 0,6"

def Period.cron : Period → String
  | minute => "* * * * *"
  | hour => "0 * * * *"
  | day => "0 0 * * *"
  | week => "0 0 * * 0"

/-- The expression the code writes for a phrase. -/
inductive Phrase.Writes : Phrase → Str → Prop where
  | expression (expr : Str) : Writes (.expression expr) expr
  | each (period : Period) : Writes (.each period) period.cron.toList
  | minutes (n : Nat) (pos : 0 < n) :
      Writes (.minutes n pos) ("*/".toList ++ showNat n ++ " * * * *".toList)
  | hours (n : Nat) (pos : 0 < n) :
      Writes (.hours n pos) ("0 */".toList ++ showNat n ++ " * * *".toList)
  | monthly : Writes .monthly "0 0 1 * *".toList
  | at {days : Days} {time : Str} {hour : Nat} (h : parseTimeToHour toLowercase time = .ok hour) :
      Writes (.at days time) ("0 ".toList ++ showNat hour ++ days.suffix.toList)

end Phrases

section Reading

variable {toLowercase : Str → Str} {input rest time count cron : Str} {n hour : Nat}

theorem hourOf_ok {hourText : Str} (h : hourOf time hourText = .ok n) :
    parseU32 hourText = some n := by
  rw [hourOf] at h
  cases hread : parseU32 hourText with
  | none =>
    rw [hread] at h
    cases h
  | some k =>
    rw [hread] at h
    exact congrArg some (Except.ok.inj h)

theorem halfDay_ok {hourText : Str} {twelve offset : Nat}
    (h : halfDay time hourText twelve offset = .ok hour) :
    ∃ n, parseU32 (trim hourText) = some n ∧ 1 ≤ n ∧ n ≤ 12 ∧
      hour = if n = 12 then twelve else n + offset := by
  rw [halfDay] at h
  cases hread : hourOf time (trim hourText) with
  | error e =>
    rw [hread] at h
    cases h
  | ok n =>
    rw [hread] at h
    have hcases : (if n = 12 then .ok twelve else if 1 ≤ n ∧ n ≤ 11 then .ok (n + offset)
        else .error ("Invalid hour: ".toList ++ showNat n) : Except Str Nat) = .ok hour := h
    refine ⟨n, hourOf_ok hread, ?_⟩
    split at hcases
    · rename_i htwelve
      cases hcases
      exact ⟨by omega, by omega, (if_pos htwelve).symm⟩
    · rename_i hnot
      split at hcases
      · cases hcases
        exact ⟨by omega, by omega, (if_neg hnot).symm⟩
      · cases hcases

theorem wholeDay_ok {hourText : Str} (h : wholeDay time hourText = .ok hour) :
    parseU32 hourText = some hour ∧ hour ≤ 23 := by
  rw [wholeDay] at h
  cases hread : hourOf time hourText with
  | error e =>
    rw [hread] at h
    cases h
  | ok n =>
    rw [hread] at h
    have hcases : (if n > 23 then .error ("Hour must be 0-23, got ".toList ++ showNat n)
        else .ok n : Except Str Nat) = .ok hour := h
    split at hcases
    · cases hcases
    · cases hcases
      exact ⟨hourOf_ok hread, by omega⟩

/-- The hour is read as it is said. -/
theorem parseTimeToHour_clock (h : parseTimeToHour toLowercase time = .ok hour) :
    clockHour toLowercase time = some hour ∧ hour ≤ 23 := by
  rw [parseTimeToHour] at h
  rw [clockHour]
  cases ham : stripSuffix "am" (toLowercase (trim time)) with
  | some morning =>
    rw [ham] at h
    obtain ⟨n, hread, hlow, hhigh, rfl⟩ := halfDay_ok h
    dsimp only
    rw [hread, Option.bind_some, if_pos ⟨hlow, hhigh⟩]
    split
    · exact ⟨by congr 1; omega, by omega⟩
    · exact ⟨by congr 1; omega, by omega⟩
  | none =>
    rw [ham] at h
    cases hpm : stripSuffix "pm" (toLowercase (trim time)) with
    | some evening =>
      rw [hpm] at h
      obtain ⟨n, hread, hlow, hhigh, rfl⟩ := halfDay_ok h
      dsimp only
      rw [hread, Option.bind_some, if_pos ⟨hlow, hhigh⟩]
      split
      · exact ⟨by congr 1; omega, by omega⟩
      · exact ⟨by congr 1; omega, by omega⟩
    | none =>
      rw [hpm] at h
      dsimp only at h ⊢
      by_cases hcolon : ':' ∈ toLowercase (trim time)
      · rw [if_pos hcolon] at h ⊢
        obtain ⟨hread, hle⟩ := wholeDay_ok h
        rw [hread, Option.bind_some, if_pos hle]
        exact ⟨rfl, hle⟩
      · rw [if_neg hcolon] at h ⊢
        obtain ⟨hread, hle⟩ := wholeDay_ok h
        rw [hread, Option.bind_some, if_pos hle]
        exact ⟨rfl, hle⟩

/-- What one of the alternatives says and writes. `none` leaves it to the next one. -/
def Tells (toLowercase : Str → Str) (said : Option Phrase) (done : Option (Except Str Str)) :
    Prop :=
  (done = none → said = none) ∧
    ∀ cron, done = some (.ok cron) → ∃ p, said = some p ∧ p.Writes toLowercase cron

theorem tells_none : Tells toLowercase none none := ⟨fun _ => rfl, nofun⟩

theorem Phrase.Writes.tells {p : Phrase} (h : p.Writes toLowercase cron) :
    Tells toLowercase (some p) (some (.ok cron)) := by
  refine ⟨nofun, fun other hother => ⟨p, rfl, ?_⟩⟩
  cases hother
  exact h

theorem Tells.or {said said' : Option Phrase} {done done' : Option (Except Str Str)}
    (h : Tells toLowercase said done) (h' : Tells toLowercase said' done') :
    Tells toLowercase (said.or said') (done.or done') := by
  cases done with
  | none =>
    rw [h.1 rfl, Option.none_or, Option.none_or]
    exact h'
  | some result =>
    rw [Option.some_or]
    refine ⟨nofun, fun cron hcron => ?_⟩
    obtain ⟨p, rfl, hwrites⟩ := h.2 cron hcron
    exact ⟨p, rfl, hwrites⟩

theorem Tells.getD {said : Option Phrase} {done : Option (Except Str Str)} {reason : Str}
    (htells : Tells toLowercase said done) (h : done.getD (.error reason) = .ok cron) :
    ∃ p, said = some p ∧ p.Writes toLowercase cron := by
  cases done with
  | none => cases h
  | some result => exact htells.2 cron (congrArg some h)

theorem every_tells {unit lead tail : Str} {limit : Nat} {make : ∀ n, 0 < n → Phrase}
    (hmake : ∀ n pos, (make n pos).Writes toLowercase (lead ++ showNat n ++ tail)) :
    Tells toLowercase (countPhrase count limit make)
      (some (every input count unit limit lead tail)) := by
  refine ⟨nofun, fun cron hcron => ?_⟩
  have h := Option.some.inj hcron
  rw [every] at h
  rw [countPhrase]
  split at h
  · cases h
  · rename_i n hread
    split at h
    · cases h
    · rename_i hrange
      cases h
      have hpos : 0 < n := by omega
      rw [hread, Option.bind_some, dif_pos hpos, if_pos (by omega)]
      exact ⟨_, rfl, hmake n hpos⟩

theorem everyToCron_tells (input rest : Str) :
    Tells toLowercase (everyPhrase rest) (everyToCron input rest) := by
  rw [everyPhrase, everyToCron]
  by_cases hminute : isOne rest "minute" = true
  · rw [if_pos hminute, if_pos hminute]
    exact (Phrase.Writes.each .minute).tells
  · rw [if_neg hminute, if_neg hminute]
    cases stripSuffix " minutes" rest with
    | some count => exact every_tells .minutes
    | none =>
      dsimp only
      by_cases hhour : isOne rest "hour" = true
      · rw [if_pos hhour, if_pos hhour]
        exact (Phrase.Writes.each .hour).tells
      · rw [if_neg hhour, if_neg hhour]
        cases stripSuffix " hours" rest with
        | some count => exact every_tells .hours
        | none =>
          dsimp only
          by_cases hday : isOne rest "day" = true
          · rw [if_pos hday, if_pos hday]
            exact (Phrase.Writes.each .day).tells
          · rw [if_neg hday, if_neg hday]
            by_cases hweek : isOne rest "week" = true
            · rw [if_pos hweek, if_pos hweek]
              exact (Phrase.Writes.each .week).tells
            · rw [if_neg hweek, if_neg hweek]
              exact tells_none

theorem atHour_tells (input : Str) (pre : String) (days : Days) :
    Tells toLowercase (atPhrase input pre days) (atHour toLowercase input pre days.suffix) := by
  rw [atPhrase, atHour]
  cases stripPrefix pre.toList input with
  | none => exact tells_none
  | some time =>
    refine ⟨nofun, fun cron hcron => ⟨_, rfl, ?_⟩⟩
    have h := Option.some.inj hcron
    dsimp only at h
    cases hhour : parseTimeToHour toLowercase time with
    | error e =>
      rw [hhour] at h
      cases h
    | ok hour =>
      rw [hhour] at h
      obtain rfl : "0 ".toList ++ showNat hour ++ days.suffix.toList = cron := Except.ok.inj h
      exact .at hhour

theorem tells_cons {named : String × String} {rest : List (String × String)} {p : Phrase}
    {said : Option Phrase} (hp : p.Writes toLowercase named.2.toList)
    (h : Tells toLowercase said
      ((rest.find? fun named => named.1.toList = input).map fun named => .ok named.2.toList)) :
    Tells toLowercase (if input = named.1.toList then some p else said)
      (((named :: rest).find? fun named => named.1.toList = input).map fun named =>
        .ok named.2.toList) := by
  rw [List.find?_cons]
  by_cases hname : named.1.toList = input
  · rw [if_pos hname.symm, decide_eq_true hname]
    exact hp.tells
  · rw [if_neg (Ne.symm hname), decide_eq_false hname]
    exact h

theorem namedToCron_tells (input : Str) :
    Tells toLowercase (namedPhrase input) (namedToCron input) := by
  rw [namedPhrase, namedToCron, namedSchedules]
  exact tells_cons (.each .hour) (tells_cons (.each .day) (tells_cons (.each .week)
    (tells_cons .monthly tells_none)))

theorem parseScheduleToCron_writes (h : parseScheduleToCron toLowercase input = .ok cron) :
    ∃ p, phrase (toLowercase (trim input)) = some p ∧ p.Writes toLowercase cron := by
  rw [parseScheduleToCron] at h
  rw [phrase]
  generalize toLowercase (trim input) = text at h ⊢
  dsimp only at h ⊢
  split at h
  · rename_i hexpr
    cases h
    rw [if_pos hexpr]
    exact ⟨_, rfl, .expression _⟩
  · rename_i hexpr
    rw [if_neg hexpr]
    have hevery : Tells toLowercase ((stripPrefix "every ".toList text).bind everyPhrase)
        ((stripPrefix "every ".toList text).bind (everyToCron text)) := by
      cases stripPrefix "every ".toList text with
      | none => exact tells_none
      | some rest => exact everyToCron_tells text rest
    have htells := hevery.or ((atHour_tells text "daily at " .daily).or
      ((atHour_tells text "weekdays at " .weekdays).or
        ((atHour_tells text "weekends at " .weekends).or (namedToCron_tells text))))
    exact htells.getD h

end Reading

section Firing

variable {n t : Nat} {days : Days}

def Days.field : Days → Str
  | daily => ['*']
  | weekdays => ['1', '-', '5']
  | weekends => ['0', ',', '6']

theorem weekMatches_field : weekMatches days.field t = true ↔ days.Has t := by
  cases days with
  | daily => exact iff_of_true weekMatches_star trivial
  | weekdays =>
    have h : weekMatches ['1', '-', '5'] t = decide (1 ≤ dayOfWeek t ∧ dayOfWeek t ≤ 5) :=
      weekMatches_eq (P := fun d => decide (1 ≤ d ∧ d ≤ 5)) (by decide)
    exact h ▸ decide_eq_true_iff
  | weekends =>
    have h : weekMatches ['0', ',', '6'] t = decide (dayOfWeek t = 0 ∨ dayOfWeek t = 6) :=
      weekMatches_eq (P := fun d => decide (d = 0 ∨ d = 6)) (by decide)
    exact h ▸ decide_eq_true_iff

/-- An expression for full hours. -/
theorem fires_fullHour {expr w dow : Str}
    (h : splitWhitespace expr = [['0'], w, ['*'], ['*'], dow]) :
    fires expr t = true ↔
      minute t = 0 ∧ fieldMatches 0 23 w (hour t) = true ∧ weekMatches dow t = true := by
  have hminute : fieldMatches 0 59 ['0'] (minute t) = decide (minute t = 0) :=
    fieldMatches_number 0
  rw [fires_eq h, dayMatches_star, hminute, Bool.and_eq_true, Bool.and_eq_true,
    decide_eq_true_iff, and_assoc]

theorem hourMatches_star : fieldMatches 0 23 ['*'] (hour t) = true := by
  rw [fieldMatches_star, decide_eq_true_iff]
  exact ⟨Nat.zero_le _, hour_le t⟩

theorem hourMatches_midnight : fieldMatches 0 23 ['0'] (hour t) = true ↔ hour t = 0 := by
  have h : fieldMatches 0 23 ['0'] (hour t) = decide (hour t = 0) := fieldMatches_number 0
  rw [h, decide_eq_true_iff]

theorem isWhitespace_step (n : Nat) : ∀ c ∈ '*' :: '/' :: showNat n, isWhitespace c = false :=
  List.forall_mem_cons.mpr ⟨by decide, List.forall_mem_cons.mpr ⟨by decide, isWhitespace_showNat n⟩⟩

theorem splitWhitespace_zero (s : Str) :
    splitWhitespace (['0'] ++ ' ' :: s) = ['0'] :: splitWhitespace s :=
  splitWhitespace_cons (List.cons_ne_nil _ _) (List.forall_mem_singleton.mpr (by decide))

theorem fires_minutes (hn : 0 < n) :
    fires ("*/".toList ++ showNat n ++ " * * * *".toList) t = true ↔ minute t % n = 0 := by
  have hsplit : splitWhitespace ("*/".toList ++ showNat n ++ " * * * *".toList) =
      ['*' :: '/' :: showNat n, ['*'], ['*'], ['*'], ['*']] :=
    splitWhitespace_cons (List.cons_ne_nil _ _) (isWhitespace_step n)
  rw [fires_eq hsplit, dayMatches_star, weekMatches_star, hourMatches_star, Bool.and_true,
    Bool.and_true, fieldMatches_step hn, decide_eq_true_iff, Nat.sub_zero]
  exact ⟨fun h => h.2.2, fun h => ⟨Nat.zero_le _, minute_le t, h⟩⟩

theorem fires_hours (hn : 0 < n) :
    fires ("0 */".toList ++ showNat n ++ " * * *".toList) t = true ↔
      minute t = 0 ∧ hour t % n = 0 := by
  have hsplit : splitWhitespace ("0 */".toList ++ showNat n ++ " * * *".toList) =
      [['0'], '*' :: '/' :: showNat n, ['*'], ['*'], ['*']] :=
    (splitWhitespace_zero _).trans (congrArg _
      (splitWhitespace_cons (List.cons_ne_nil _ _) (isWhitespace_step n)))
  rw [fires_fullHour hsplit, fieldMatches_step hn, decide_eq_true_iff, Nat.sub_zero]
  exact and_congr_right fun _ => ⟨fun h => h.1.2.2,
    fun h => ⟨⟨Nat.zero_le _, hour_le t, h⟩, weekMatches_star⟩⟩

theorem fires_at :
    fires ("0 ".toList ++ showNat n ++ days.suffix.toList) t = true ↔
      minute t = 0 ∧ hour t = n ∧ days.Has t := by
  have hsplit : splitWhitespace ("0 ".toList ++ showNat n ++ days.suffix.toList) =
      [['0'], showNat n, ['*'], ['*'], days.field] := by
    have htail : ∃ s, days.suffix.toList = ' ' :: s ∧
        splitWhitespace s = [['*'], ['*'], days.field] := by
      cases days <;> exact ⟨_, rfl, by decide⟩
    obtain ⟨s, hs, hfields⟩ := htail
    rw [hs, List.append_assoc]
    exact (splitWhitespace_zero _).trans (congrArg _
      ((splitWhitespace_cons (showNat_ne_nil n) (isWhitespace_showNat n)).trans
        (congrArg _ hfields)))
  rw [fires_fullHour hsplit, fieldMatches_number, decide_eq_true_iff, weekMatches_field]

theorem fires_each (period : Period) :
    Apart period.length fun t => fires period.cron.toList t = true := by
  cases period with
  | minute =>
    refine ⟨0, Nat.one_pos, fun t => iff_of_true ?_ (Nat.mod_one t)⟩
    have hsplit : splitWhitespace "* * * * *".toList = [['*'], ['*'], ['*'], ['*'], ['*']] := by
      decide
    have hminute : fieldMatches 0 59 ['*'] (minute t) = true := by
      rw [fieldMatches_star, decide_eq_true_iff]
      exact ⟨Nat.zero_le _, minute_le t⟩
    exact (fires_eq hsplit).trans (by
      rw [hminute, hourMatches_star, dayMatches_star, weekMatches_star]; rfl)
  | hour =>
    refine ⟨0, by decide, fun t => ?_⟩
    have hsplit : splitWhitespace "0 * * * *".toList = [['0'], ['*'], ['*'], ['*'], ['*']] := by
      decide
    exact (fires_fullHour hsplit).trans
      ⟨fun h => h.1, fun h => ⟨h, hourMatches_star, weekMatches_star⟩⟩
  | day =>
    refine ⟨0, by decide, fun t => ?_⟩
    have hsplit : splitWhitespace "0 0 * * *".toList = [['0'], ['0'], ['*'], ['*'], ['*']] := by
      decide
    refine (fires_fullHour hsplit).trans ?_
    rw [hourMatches_midnight, and_iff_left weekMatches_star, minute, hour, Period.length]
    omega
  | week =>
    -- the year 0 begins on a Saturday
    refine ⟨1440, by decide, fun t => ?_⟩
    have hsplit : splitWhitespace "0 0 * * 0".toList = [['0'], ['0'], ['*'], ['*'], ['0']] := by
      decide
    refine (fires_fullHour hsplit).trans ?_
    have hsunday : weekMatches ['0'] t = decide (dayOfWeek t = 0) :=
      weekMatches_eq (P := fun d => decide (d = 0)) (by decide)
    rw [hourMatches_midnight, hsunday, decide_eq_true_iff, minute, hour, dayOfWeek, day, Period.length]
    omega

end Firing

section Meaning

variable {toLowercase : Str → Str} {time : Str} {n : Nat} {days : Days}

theorem apart_minutes_iff (hn : 0 < n) :
    (Apart n fun t => fires ("*/".toList ++ showNat n ++ " * * * *".toList) t = true) ↔
      n ∣ 60 := by
  constructor
  · intro h
    have hzero : fires ("*/".toList ++ showNat n ++ " * * * *".toList) 0 = true :=
      (fires_minutes hn).mpr (Nat.zero_mod n)
    -- the next hour begins with an instant again
    have hnext : fires ("*/".toList ++ showNat n ++ " * * * *".toList) 60 = true :=
      (fires_minutes hn).mpr (Nat.zero_mod n)
    exact (h.iff_dvd hzero 60).mp hnext
  · intro h
    refine apart_of_dvd hn fun t => ?_
    rw [fires_minutes hn, ← Nat.dvd_iff_mod_eq_zero]
    exact Nat.dvd_mod_iff h

theorem apart_hours_iff (hn : 0 < n) :
    (Apart (60 * n) fun t => fires ("0 */".toList ++ showNat n ++ " * * *".toList) t = true) ↔
      n ∣ 24 := by
  constructor
  · intro h
    have hzero : fires ("0 */".toList ++ showNat n ++ " * * *".toList) 0 = true :=
      (fires_hours hn).mpr ⟨rfl, Nat.zero_mod n⟩
    -- the next day begins with an instant again
    have hnext : fires ("0 */".toList ++ showNat n ++ " * * *".toList) (60 * 24) = true :=
      (fires_hours hn).mpr ⟨rfl, Nat.zero_mod n⟩
    exact Nat.dvd_of_mul_dvd_mul_left (by decide) ((h.iff_dvd hzero (60 * 24)).mp hnext)
  · intro h
    refine apart_of_dvd (Nat.mul_pos (by decide) hn) fun t => ?_
    rw [fires_hours hn, ← Nat.dvd_iff_mod_eq_zero, hour, Nat.dvd_mod_iff h]
    constructor
    · rintro ⟨hminute, hhours⟩
      have hsum : t = 60 * (t / 60) := by
        have hdiv := Nat.div_add_mod t 60
        rw [minute] at hminute
        omega
      rw [hsum]
      exact Nat.mul_dvd_mul_left 60 hhours
    · rintro ⟨k, rfl⟩
      refine ⟨?_, ?_⟩
      · rw [minute, Nat.mul_assoc, Nat.mul_mod_right]
      · rw [Nat.mul_assoc, Nat.mul_div_cancel_left _ (by decide)]
        exact Nat.dvd_mul_right n k

/-- Every hour comes on some day. -/
theorem Days.exists_instant (days : Days) (h : n ≤ 23) :
    ∃ t, days.Has t ∧ hour t = n ∧ minute t = 0 := by
  cases days with
  | daily => exact ⟨60 * n, trivial, by rw [hour]; omega, by rw [minute]; omega⟩
  | weekdays =>
    refine ⟨2880 + 60 * n, ?_, by rw [hour]; omega, by rw [minute]; omega⟩
    rw [Days.Has, dayOfWeek, day]
    omega
  | weekends =>
    refine ⟨60 * n, ?_, by rw [hour]; omega, by rw [minute]; omega⟩
    rw [Days.Has, dayOfWeek, day]
    omega

theorem says_at_iff (hhour : parseTimeToHour toLowercase time = .ok n) :
    ((Phrase.at days time).Says toLowercase fun t =>
      fires ("0 ".toList ++ showNat n ++ days.suffix.toList) t = true) ↔
      minuteOf toLowercase time = some 0 := by
  obtain ⟨hclock, hle⟩ := parseTimeToHour_clock hhour
  constructor
  · rintro ⟨h, m, hh, hm, hmeans⟩
    obtain rfl : n = h := Option.some.inj (hclock.symm.trans hh)
    obtain ⟨t, hday, hhour, hminute⟩ := days.exists_instant hle
    have hfires := (hmeans t).mp (fires_at.mpr ⟨hminute, hhour, hday⟩)
    rw [hm, ← hfires.2.2, hminute]
  · intro hm
    refine ⟨n, 0, hclock, hm, fun t => fires_at.trans ?_⟩
    exact ⟨fun ⟨a, b, c⟩ => ⟨c, b, a⟩, fun ⟨a, b, c⟩ => ⟨c, b, a⟩⟩

theorem says_monthly : Phrase.monthly.Says toLowercase fun t =>
    fires "0 0 1 * *".toList t = true := by
  refine ⟨1, 0, 0, by decide, by decide, by decide, by decide, fun t => ?_⟩
  have hsplit : splitWhitespace "0 0 1 * *".toList = [['0'], ['0'], ['1'], ['*'], ['*']] := by
    decide
  have hminute : fieldMatches 0 59 ['0'] (minute t) = decide (minute t = 0) :=
    fieldMatches_number 0
  have hday : fieldMatches 1 31 ['1'] (dayOfMonth (day t)) = decide (dayOfMonth (day t) = 1) :=
    fieldMatches_number 1
  have hmatch : dayMatches ['1'] ['*'] t = decide (dayOfMonth (day t) = 1) := by
    rw [dayMatches, hday, weekMatches_star]
    exact (if_pos (by decide)).trans (Bool.and_true _)
  dsimp only
  rw [fires_eq hsplit, hmatch, hminute, Bool.and_eq_true, Bool.and_eq_true, hourMatches_midnight,
    decide_eq_true_iff, decide_eq_true_iff]
  constructor
  · rintro ⟨⟨hfirst, hhour⟩, hfull⟩
    exact ⟨hfull, hhour, hfirst⟩
  · rintro ⟨hfull, hhour, hfirst⟩
    exact ⟨⟨hfirst, hhour⟩, hfull⟩

theorem Phrase.Writes.says_iff {p : Phrase} {cron : Str} (h : p.Writes toLowercase cron) :
    (p.Says toLowercase fun t => fires cron t = true) ↔ p.Sound toLowercase := by
  cases h with
  | expression expr => exact iff_of_true (fun t => Iff.rfl) trivial
  | each period => exact iff_of_true (fires_each period) trivial
  | minutes n pos => exact apart_minutes_iff pos
  | hours n pos => exact apart_hours_iff pos
  | monthly => exact iff_of_true says_monthly trivial
  | «at» hhour => exact says_at_iff hhour

variable {input cron : Str}

/-- What is written fires at the instants which the text says exactly when the number of minutes
divides the hour, the number of hours divides the day, and the time is a full hour. -/
theorem parseScheduleToCron_meaning (h : parseScheduleToCron toLowercase input = .ok cron) :
    ∃ p, phrase (toLowercase (trim input)) = some p ∧
      ((∃ S, p.Says toLowercase S ∧ ∀ t, fires cron t = true ↔ S t) ↔ p.Sound toLowercase) := by
  obtain ⟨p, hp, hwrites⟩ := parseScheduleToCron_writes h
  refine ⟨p, hp, Iff.trans ?_ hwrites.says_iff⟩
  constructor
  · rintro ⟨S, hmeans, hfires⟩
    obtain rfl : (fun t => fires cron t = true) = S := funext fun t => propext (hfires t)
    exact hmeans
  · intro hmeans
    exact ⟨_, hmeans, fun t => Iff.rfl⟩

theorem parseScheduleToCron_meaning_quarters :
    parseScheduleToCron id " every 15 minutes".toList = .ok "*/15 * * * *".toList ∧
      ∃ p, phrase (id (trim " every 15 minutes".toList)) = some p ∧
        ((∃ S, p.Says id S ∧ ∀ t, fires "*/15 * * * *".toList t = true ↔ S t) ↔ p.Sound id) :=
  ⟨by decide, parseScheduleToCron_meaning (by decide)⟩

/-- Every 45 minutes is read as the minutes 0 and 45. -/
theorem schedule_not_meant :
    ¬ ∀ (toLowercase : Str → Str) (input cron : Str),
      parseScheduleToCron toLowercase input = .ok cron →
        ∃ p, phrase (toLowercase (trim input)) = some p ∧
          ∃ S, p.Says toLowercase S ∧ ∀ t, fires cron t = true ↔ S t := by
  intro hall
  have hcron : parseScheduleToCron id "every 45 minutes".toList = .ok "*/45 * * * *".toList := by
    decide
  have hphrase : phrase (id (trim "every 45 minutes".toList)) = some (.minutes 45 (by decide)) :=
    rfl
  obtain ⟨p, hp, S, hmeans, hfires⟩ := hall id _ _ hcron
  obtain rfl : .minutes 45 (by decide) = p := Option.some.inj (hphrase.symm.trans hp)
  obtain rfl : (fun t => fires "*/45 * * * *".toList t = true) = S :=
    funext fun t => propext (hfires t)
  have hdvd : 45 ∣ 60 := (apart_minutes_iff (by decide)).mp hmeans
  exact absurd hdvd (by decide)

end Meaning

end Clawreform.Runtime.ScheduleMeaning
