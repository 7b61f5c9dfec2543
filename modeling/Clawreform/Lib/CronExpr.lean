import Clawreform.Lib.Calendar
import Clawreform.Lib.SerdeJson
import Mathlib.Data.Nat.ModEq

namespace Clawreform.Lib.CronExpr

open Clawreform.Lib.Text Clawreform.Lib.Calendar

section Clock

/-! Instants are minutes since the beginning of the year 0. -/

def minute (t : Nat) : Nat := t % 60

def hour (t : Nat) : Nat := t / 60 % 24

def day (t : Nat) : Nat := t / 1440

/-- Sunday is 0. -/
def dayOfWeek (t : Nat) : Nat := (day t + 6) % 7

example : dayOfWeek (1440 * yearStart 1970) = 4 := by decide

/-- The instants of a set are a fixed number of minutes apart. -/
def Apart (n : Nat) (S : Nat → Prop) : Prop := ∃ r < n, ∀ t, S t ↔ t % n = r

end Clock

section Expressions

def number (s : Str) : Option Nat :=
  if s ≠ [] ∧ s.all Char.isDigit then some (Nat.ofDigitChars 10 s 0) else none

/-- The first and the last value of a range; a single value with a step goes up to the end. -/
def bounds (lo hi : Nat) (stepped : Bool) (range : Str) : Option (Nat × Nat) :=
  if range = ['*'] then some (lo, hi)
  else
    match range.splitOn '-' with
    | [a] => (number a).map fun first => (first, if stepped then hi else first)
    | [a, b] => (number a).bind fun first => (number b).map fun last => (first, last)
    | _ => none

def itemMatches (lo hi : Nat) (item : Str) (x : Nat) : Bool :=
  match item.splitOn '/' with
  | [range] => (bounds lo hi false range).any fun b => decide (b.1 ≤ x ∧ x ≤ b.2)
  | [range, step] => (bounds lo hi true range).any fun b => (number step).any fun n =>
      decide (0 < n ∧ b.1 ≤ x ∧ x ≤ b.2 ∧ (x - b.1) % n = 0)
  | _ => false

def fieldMatches (lo hi : Nat) (field : Str) (x : Nat) : Bool :=
  (field.splitOn ',').any fun item => itemMatches lo hi item x

/-- Sunday is 7 as well. -/
def weekMatches (dow : Str) (t : Nat) : Bool :=
  fieldMatches 0 7 dow (dayOfWeek t) || (decide (dayOfWeek t = 0) && fieldMatches 0 7 dow 7)

/-- Two restricted fields of the day are alternatives. -/
def dayMatches (dom dow : Str) (t : Nat) : Bool :=
  let inMonth := fieldMatches 1 31 dom (dayOfMonth (day t))
  if dom.head? = some '*' || dow.head? = some '*' then inMonth && weekMatches dow t
  else inMonth || weekMatches dow t

/-- Minute, hour, day of the month, month and day of the week. -/
def fires (expr : Str) (t : Nat) : Bool :=
  match splitWhitespace expr with
  | [mi, h, dom, mon, dow] => fieldMatches 0 59 mi (minute t) && fieldMatches 0 23 h (hour t) &&
      fieldMatches 1 12 mon (month (day t)) && dayMatches dom dow t
  | _ => false

example : fires "*/15 9-17 * * 1-5".toList (1440 * yearStart 1970 + 9 * 60 + 45) = true := by
  decide

end Expressions

section Fields

variable {lo hi n x t : Nat} {w s dom mon dow mi h : Str}

theorem showNat_ne_nil (n : Nat) : showNat n ≠ [] := Nat.toDigits_ne_nil

theorem number_showNat (n : Nat) : number (showNat n) = some n := by
  have hdigits : (showNat n).all Char.isDigit = true :=
    List.all_eq_true.mpr (SerdeJson.showNat_digits n)
  have hvalue : Nat.ofDigitChars 10 (showNat n) 0 = n :=
    Nat.ofDigitChars_toDigits (by decide) (by decide)
  rw [number, if_pos ⟨showNat_ne_nil n, hdigits⟩, hvalue]

theorem notMem_showNat {c : Char} (hc : c.isDigit = false) (n : Nat) : c ∉ showNat n := by
  intro h
  rw [SerdeJson.showNat_digits n c h] at hc
  cases hc

theorem isWhitespace_showNat (n : Nat) : ∀ c ∈ showNat n, isWhitespace c = false := by
  intro c hc
  obtain ⟨hlow, hhigh⟩ := Char.isDigit_iff_toNat.mp (SerdeJson.showNat_digits n c hc)
  have hlow : 48 ≤ c.toNat := hlow
  have hhigh : c.toNat ≤ 57 := hhigh
  rw [isWhitespace, Bool.eq_false_iff]
  simp only [ne_eq, Bool.or_eq_true, Bool.and_eq_true, decide_eq_true_eq]
  omega

theorem fieldMatches_star : fieldMatches lo hi ['*'] x = decide (lo ≤ x ∧ x ≤ hi) :=
  Bool.or_false _

theorem fieldMatches_number (n : Nat) : fieldMatches lo hi (showNat n) x = decide (x = n) := by
  have hstar : showNat n ≠ ['*'] := by
    intro h
    exact notMem_showNat (by decide) n (h ▸ List.mem_singleton_self '*')
  rw [fieldMatches, List.splitOn_eq_singleton (notMem_showNat (by decide) n), List.any_cons,
    List.any_nil, Bool.or_false, itemMatches,
    List.splitOn_eq_singleton (notMem_showNat (by decide) n)]
  dsimp only
  rw [bounds, if_neg hstar, List.splitOn_eq_singleton (notMem_showNat (by decide) n)]
  dsimp only
  rw [number_showNat, Option.map_some, Option.any_some, decide_eq_decide]
  dsimp only
  rw [if_neg Bool.false_ne_true]
  omega

theorem fieldMatches_step (hn : 0 < n) : fieldMatches lo hi ('*' :: '/' :: showNat n) x =
    decide (lo ≤ x ∧ x ≤ hi ∧ (x - lo) % n = 0) := by
  have hcomma : ',' ∉ '*' :: '/' :: showNat n := by
    simp [notMem_showNat (show ','.isDigit = false by decide) n]
  have hslash : ('*' :: '/' :: showNat n).splitOn '/' = [['*'], showNat n] := by
    have h := List.splitOn_append_cons_self_of_not_mem (show '/' ∉ ['*'] by decide) (showNat n)
    rwa [List.splitOn_eq_singleton (notMem_showNat (by decide) n)] at h
  rw [fieldMatches, List.splitOn_eq_singleton hcomma, List.any_cons, List.any_nil, Bool.or_false,
    itemMatches, hslash]
  dsimp only
  rw [bounds, if_pos rfl, Option.any_some, number_showNat, Option.any_some, decide_eq_decide]
  exact and_iff_right hn

theorem splitWhitespace_cons (hne : w ≠ []) (hw : ∀ c ∈ w, isWhitespace c = false) :
    splitWhitespace (w ++ ' ' :: s) = w :: splitWhitespace s := by
  rw [splitWhitespace, List.splitOnP_append_cons_of_forall_mem hw ' ' (by decide),
    List.filter_cons_of_pos (by simpa using hne)]
  rfl

theorem month_pos (n : Nat) : 1 ≤ month n := Nat.succ_pos _

theorem dayOfMonth_pos (n : Nat) : 1 ≤ dayOfMonth n := Nat.succ_pos _

theorem minute_le (t : Nat) : minute t ≤ 59 := Nat.le_of_lt_succ (Nat.mod_lt t (by decide))

theorem hour_le (t : Nat) : hour t ≤ 23 := Nat.le_of_lt_succ (Nat.mod_lt _ (by decide))

theorem dayOfWeek_lt (t : Nat) : dayOfWeek t < 7 := Nat.mod_lt _ (by decide)

theorem dayMatches_star : dayMatches ['*'] dow t = weekMatches dow t := by
  have hmonth : fieldMatches 1 31 ['*'] (dayOfMonth (day t)) = true := by
    rw [fieldMatches_star, decide_eq_true_iff]
    exact ⟨dayOfMonth_pos _, dayOfMonth_le _⟩
  rw [dayMatches, hmonth]
  exact (if_pos rfl).trans (Bool.true_and _)

theorem weekMatches_star : weekMatches ['*'] t = true := by
  have hweek : fieldMatches 0 7 ['*'] (dayOfWeek t) = true := by
    rw [fieldMatches_star, decide_eq_true_iff]
    exact ⟨Nat.zero_le _, (dayOfWeek_lt t).le⟩
  rw [weekMatches, hweek, Bool.true_or]

/-- The days of the week are tried one by one. -/
theorem weekMatches_eq {P : Nat → Bool} (h : (List.range 7).all (fun d =>
    (fieldMatches 0 7 dow d || (decide (d = 0) && fieldMatches 0 7 dow 7)) == P d) = true) :
    weekMatches dow t = P (dayOfWeek t) :=
  eq_of_beq (List.all_eq_true.mp h _ (List.mem_range.mpr (dayOfWeek_lt t)))

/-- An expression without a restriction on the month. -/
theorem fires_eq {expr : Str} (h : splitWhitespace expr = [mi, w, dom, ['*'], dow]) :
    fires expr t = (fieldMatches 0 59 mi (minute t) && fieldMatches 0 23 w (hour t) &&
      dayMatches dom dow t) := by
  have hmonth : fieldMatches 1 12 ['*'] (month (day t)) = true := by
    rw [fieldMatches_star, decide_eq_true_iff]
    exact ⟨month_pos _, month_le _⟩
  rw [fires, h]
  dsimp only
  rw [hmonth, Bool.and_true]

end Fields

section Periods

variable {n : Nat} {S : Nat → Prop}

/-- A set with the first instant is the multiples. -/
theorem Apart.iff_dvd (h : Apart n S) (hzero : S 0) (t : Nat) : S t ↔ n ∣ t := by
  obtain ⟨r, hr, hS⟩ := h
  have hrest : 0 % n = r := (hS 0).mp hzero
  rw [hS, ← hrest, Nat.zero_mod, Nat.dvd_iff_mod_eq_zero]

theorem apart_of_dvd (hn : 0 < n) (h : ∀ t, S t ↔ n ∣ t) : Apart n S :=
  ⟨0, hn, fun t => (h t).trans Nat.dvd_iff_mod_eq_zero⟩

end Periods

end Clawreform.Lib.CronExpr
