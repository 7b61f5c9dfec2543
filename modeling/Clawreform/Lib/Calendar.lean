import Clawreform.Lib.Text
import Mathlib.Data.Nat.Find

namespace Clawreform.Lib.Calendar

open Clawreform.Lib.Text

section Order

/-- Texts of one length in front decide the order, or leave it to what follows. -/
theorem append_lt_append_iff {p q s t : Str} (h : p.length = q.length) :
    p ++ s < q ++ t ↔ p < q ∨ (p = q ∧ s < t) := by
  induction p generalizing q with
  | nil =>
    obtain rfl := List.length_eq_zero_iff.mp h.symm
    simp
  | cons c p ih =>
    cases q with
    | nil => cases h
    | cons d q =>
      rw [List.cons_append, List.cons_append, List.cons_lt_cons_iff, List.cons_lt_cons_iff,
        ih (Nat.succ.inj h), List.cons.injEq]
      tauto

/-- A number with leading zeros. -/
def digits : Nat → Nat → Str
  | 0, _ => []
  | w + 1, n => digits w (n / 10) ++ [(n % 10).digitChar]

@[simp] theorem length_digits (w n : Nat) : (digits w n).length = w := by
  induction w generalizing n with
  | zero => rfl
  | succ w ih => simp [digits, ih]

theorem digitChar_lt_iff : ∀ a < 10, ∀ b < 10, (a.digitChar < b.digitChar ↔ a < b) := by decide

theorem digitChar_inj : ∀ a < 10, ∀ b < 10, (a.digitChar = b.digitChar ↔ a = b) := by decide

theorem digits_inj {w m n : Nat} (hm : m < 10 ^ w) (hn : n < 10 ^ w) :
    digits w m = digits w n ↔ m = n := by
  induction w generalizing m n with
  | zero => simp_all [digits]
  | succ w ih =>
    have hm' : m / 10 < 10 ^ w := by omega
    have hn' : n / 10 < 10 ^ w := by omega
    rw [digits, digits, List.append_singleton_inj, ih hm' hn',
      digitChar_inj _ (Nat.mod_lt _ (by decide)) _ (Nat.mod_lt _ (by decide))]
    omega

theorem digits_lt_iff {w m n : Nat} (hm : m < 10 ^ w) (hn : n < 10 ^ w) :
    digits w m < digits w n ↔ m < n := by
  induction w generalizing m n with
  | zero => simp_all [digits]
  | succ w ih =>
    have hm' : m / 10 < 10 ^ w := by omega
    have hn' : n / 10 < 10 ^ w := by omega
    rw [digits, digits, append_lt_append_iff (by simp), ih hm' hn', digits_inj hm' hn',
      List.cons_lt_cons_iff,
      digitChar_lt_iff _ (Nat.mod_lt _ (by decide)) _ (Nat.mod_lt _ (by decide))]
    simp only [List.lt_irrefl, and_false, or_false]
    omega

end Order

section Years

def isLeap (y : Nat) : Bool := y % 4 = 0 && (y % 100 ≠ 0 || y % 400 = 0)

/-- The days before a year, counted from the year 0. -/
def yearStart (y : Nat) : Nat := 365 * y + (y + 3) / 4 - (y + 99) / 100 + (y + 399) / 400

def yearLength (y : Nat) : Nat := if isLeap y then 366 else 365

theorem yearStart_succ (y : Nat) : yearStart (y + 1) = yearStart y + yearLength y := by
  have hfour : (y + 1 + 3) / 4 = (y + 3) / 4 + if y % 4 = 0 then 1 else 0 := by
    split <;> omega
  have hcentury : (y + 1 + 99) / 100 = (y + 99) / 100 + if y % 100 = 0 then 1 else 0 := by
    split <;> omega
  have hcycle : (y + 1 + 399) / 400 = (y + 399) / 400 + if y % 400 = 0 then 1 else 0 := by
    split <;> omega
  have hle : (y + 99) / 100 ≤ 365 * y + (y + 3) / 4 := by omega
  have hcentury_four : y % 100 = 0 → y % 4 = 0 := by omega
  have hcycle_century : y % 400 = 0 → y % 100 = 0 := by omega
  rw [yearStart, yearStart, yearLength, isLeap, hfour, hcentury, hcycle]
  by_cases h4 : y % 4 = 0
  · by_cases h100 : y % 100 = 0
    · by_cases h400 : y % 400 = 0
      · simp only [h4, h100, h400, if_true, decide_true, ne_eq, not_true_eq_false, decide_false,
          Bool.or_true, Bool.and_self]
        omega
      · simp only [h4, h100, h400, if_true, if_false, decide_true, ne_eq, not_true_eq_false,
          decide_false, Bool.or_self, Bool.and_false, Bool.false_eq_true]
        omega
    · have h400 : y % 400 ≠ 0 := mt hcycle_century h100
      simp only [h4, h100, h400, if_true, if_false, decide_true, ne_eq, not_false_eq_true,
        Bool.true_or, Bool.and_self]
      omega
  · have h100 : y % 100 ≠ 0 := mt hcentury_four h4
    have h400 : y % 400 ≠ 0 := mt hcycle_century h100
    simp only [h4, h100, h400, if_false, decide_false, Bool.false_and, Bool.false_eq_true]
    omega

theorem yearStart_strictMono : StrictMono yearStart := by
  apply strictMono_nat_of_lt_succ
  intro y
  rw [yearStart_succ, yearLength]
  split <;> omega

theorem le_yearStart (y : Nat) : 365 * y ≤ yearStart y := by
  unfold yearStart
  omega

/-- The year a day lies in. -/
def year (n : Nat) : Nat := Nat.findGreatest (fun y => yearStart y ≤ n) (n / 365)

theorem yearStart_year_le (n : Nat) : yearStart (year n) ≤ n := by
  have hzero : yearStart 0 ≤ n := Nat.zero_le n
  exact Nat.findGreatest_spec (P := fun y => yearStart y ≤ n) (Nat.zero_le _) hzero

theorem le_year_iff {y n : Nat} : y ≤ year n ↔ yearStart y ≤ n := by
  constructor
  · intro h
    exact (yearStart_strictMono.monotone h).trans (yearStart_year_le n)
  · intro h
    have hbound : y ≤ n / 365 := by
      have hle := le_yearStart y
      omega
    exact Nat.le_findGreatest hbound h

theorem year_mono {m n : Nat} (h : m ≤ n) : year m ≤ year n :=
  le_year_iff.mpr ((yearStart_year_le m).trans h)

theorem lt_yearStart_succ (n : Nat) : n < yearStart (year n + 1) := by
  by_contra h
  have hle := le_year_iff.mpr (Nat.le_of_not_lt h)
  omega

end Years

section Months

def monthLengths (y : Nat) : List Nat :=
  [31, if isLeap y then 29 else 28, 31, 30, 31, 30, 31, 31, 30, 31, 30, 31]

theorem sum_monthLengths (y : Nat) : (monthLengths y).sum = yearLength y := by
  unfold monthLengths yearLength
  split <;> rfl

/-- The block a number falls into, and its place there. -/
@[grind =] def place : List Nat → Nat → Nat × Nat
  | [], d => (0, d)
  | l :: ls, d => if d < l then (0, d) else ((place ls (d - l)).1 + 1, (place ls (d - l)).2)

theorem place_fst_lt {ls : List Nat} {d : Nat} (h : d < ls.sum) : (place ls d).1 < ls.length := by
  induction ls generalizing d with
  | nil => simp at h
  | cons l ls ih =>
    rw [List.sum_cons] at h
    rw [place]
    split
    · simp
    · simpa using ih (by omega : d - l < ls.sum)

theorem place_snd_lt {ls : List Nat} {d bound : Nat} (hbound : ∀ l ∈ ls, l ≤ bound)
    (h : d < ls.sum) : (place ls d).2 < bound := by
  induction ls generalizing d with
  | nil => simp at h
  | cons l ls ih =>
    rw [List.sum_cons] at h
    rw [List.forall_mem_cons] at hbound
    rw [place]
    split
    · simp only
      omega
    · exact ih hbound.2 (by omega)

theorem place_lt {ls : List Nat} {d e : Nat} (h : d < e) :
    (place ls d).1 < (place ls e).1 ∨
      ((place ls d).1 = (place ls e).1 ∧ (place ls d).2 < (place ls e).2) := by
  induction ls generalizing d e with
  | nil => exact Or.inr ⟨rfl, h⟩
  | cons l ls ih =>
    rw [place, place]
    split
    · split
      · exact Or.inr ⟨rfl, h⟩
      · exact Or.inl (Nat.succ_pos _)
    · rw [if_neg (by omega)]
      simpa using ih (by omega : d - l < e - l)

theorem place_snd_le (ls : List Nat) (d : Nat) : (place ls d).2 ≤ d := by
  induction ls generalizing d with
  | nil => exact le_rfl
  | cons l ls ih =>
    rw [place]
    split
    · exact le_rfl
    · exact (ih (d - l)).trans (Nat.sub_le d l)

/-- The first place of a block. -/
theorem place_first {ls : List Nat} (hpos : ∀ l ∈ ls, 0 < l) {d : Nat} (h : d < ls.sum) :
    place ls (d - (place ls d).2) = ((place ls d).1, 0) := by
  induction ls generalizing d with
  | nil => simp at h
  | cons l ls ih =>
    rw [List.sum_cons] at h
    rw [List.forall_mem_cons] at hpos
    by_cases hd : d < l
    · simp [place, hd, hpos.1]
    · have hrest : d - l < ls.sum := by omega
      have hle := place_snd_le ls (d - l)
      have hsub : d - (place ls (d - l)).2 - l = d - l - (place ls (d - l)).2 := by omega
      have hge : ¬ d - (place ls (d - l)).2 < l := by omega
      simp only [place, hd, if_false, hge, hsub, ih hpos.2 hrest]

end Months

section Dates

def dayOfYear (n : Nat) : Nat := n - yearStart (year n)

def month (n : Nat) : Nat := (place (monthLengths (year n)) (dayOfYear n)).1 + 1

def dayOfMonth (n : Nat) : Nat := (place (monthLengths (year n)) (dayOfYear n)).2 + 1

/-- The first day of the month a day lies in. -/
def monthStart (n : Nat) : Nat := n - (dayOfMonth n - 1)

def dateText (n : Nat) : Str :=
  digits 4 (year n) ++ ('-' :: digits 2 (month n) ++ ('-' :: digits 2 (dayOfMonth n)))

example : dateText (yearStart 2024 + 59) = "2024-02-29".toList := by decide

theorem dayOfYear_lt (n : Nat) : dayOfYear n < (monthLengths (year n)).sum := by
  have hle := yearStart_year_le n
  have hlt := lt_yearStart_succ n
  rw [yearStart_succ] at hlt
  rw [sum_monthLengths, dayOfYear]
  omega

theorem month_le (n : Nat) : month n ≤ 12 := place_fst_lt (dayOfYear_lt n)

theorem dayOfMonth_le (n : Nat) : dayOfMonth n ≤ 31 := by
  refine place_snd_lt ?_ (dayOfYear_lt n)
  intro l hl
  unfold monthLengths at hl
  split at hl <;> simp at hl <;> omega

@[simp] theorem length_dateText (n : Nat) : (dateText n).length = 10 := by simp [dateText]

theorem date_lt {m n : Nat} (h : m < n) : year m < year n ∨ (year m = year n ∧
    (month m < month n ∨ (month m = month n ∧ dayOfMonth m < dayOfMonth n))) := by
  cases (year_mono h.le).lt_or_eq with
  | inl hlt => exact Or.inl hlt
  | inr heq =>
    have hday : dayOfYear m < dayOfYear n := by
      have hle := yearStart_year_le m
      rw [dayOfYear, dayOfYear, ← heq]
      omega
    refine Or.inr ⟨heq, ?_⟩
    rw [month, month, dayOfMonth, dayOfMonth, heq]
    have hplace := @place_lt (monthLengths (year n)) _ _ hday
    omega

/-- Dates are in the order of their days. -/
theorem dateText_strictMono {m n : Nat} (hn : year n < 10000) (h : m < n) :
    dateText m < dateText n := by
  have hm : year m < 10000 := (year_mono h.le).trans_lt hn
  have hmonth (k : Nat) : month k < 10 ^ 2 := (month_le k).trans_lt (by decide)
  have hday (k : Nat) : dayOfMonth k < 10 ^ 2 := (dayOfMonth_le k).trans_lt (by decide)
  have hdash (s t : Str) : '-' :: s < '-' :: t ↔ s < t := by simp
  rw [dateText, dateText, append_lt_append_iff (by simp), digits_lt_iff hm hn, digits_inj hm hn,
    List.cons_append, List.cons_append, hdash, append_lt_append_iff (by simp),
    digits_lt_iff (hmonth m) (hmonth n), digits_inj (hmonth m) (hmonth n), hdash,
    digits_lt_iff (hday m) (hday n)]
  exact date_lt h

theorem dateText_lt_iff {m n : Nat} (hm : year m < 10000) (hn : year n < 10000) :
    dateText m < dateText n ↔ m < n := by
  constructor
  · intro h
    by_contra hle
    cases (Nat.le_of_not_lt hle).lt_or_eq with
    | inl hlt => exact absurd (dateText_strictMono hm hlt) (List.lt_asymm h)
    | inr heq => exact absurd h (heq ▸ List.lt_irrefl _)
  · exact dateText_strictMono hn

theorem dateText_inj {m n : Nat} (hm : year m < 10000) (hn : year n < 10000) :
    dateText m = dateText n ↔ m = n := by
  constructor
  · intro h
    have hmn : ¬ m < n := fun hlt =>
      absurd (dateText_strictMono hn hlt) (by rw [h]; exact List.lt_irrefl _)
    have hnm : ¬ n < m := fun hlt =>
      absurd (dateText_strictMono hm hlt) (by rw [h]; exact List.lt_irrefl _)
    omega
  · rintro rfl
    rfl

theorem monthStart_le (n : Nat) : monthStart n ≤ n := Nat.sub_le _ _

/-- The first day of a month has the date of the month with day one. -/
theorem dateText_monthStart (n : Nat) :
    dateText (monthStart n) =
      digits 4 (year n) ++ ('-' :: digits 2 (month n) ++ ('-' :: digits 2 1)) := by
  have hle := yearStart_year_le n
  have hsnd : (place (monthLengths (year n)) (dayOfYear n)).2 ≤ dayOfYear n := place_snd_le _ _
  have hstart : monthStart n = n - (place (monthLengths (year n)) (dayOfYear n)).2 := rfl
  have hsame : yearStart (year n) ≤ monthStart n := by
    rw [hstart]
    rw [dayOfYear] at hsnd ⊢
    omega
  have hyear : year (monthStart n) = year n :=
    le_antisymm (year_mono (monthStart_le n)) (le_year_iff.mpr hsame)
  have hday : dayOfYear (monthStart n) =
      dayOfYear n - (place (monthLengths (year n)) (dayOfYear n)).2 := by
    have hsub : dayOfYear (monthStart n) = monthStart n - yearStart (year n) := by
      rw [dayOfYear, hyear]
    rw [hsub, hstart]
    simp only [dayOfYear] at hsnd ⊢
    omega
  have hpos : ∀ l ∈ monthLengths (year n), 0 < l := by
    intro l hl
    unfold monthLengths at hl
    split at hl <;> simp at hl <;> omega
  have hplace := place_first hpos (dayOfYear_lt n)
  rw [dateText, month, dayOfMonth, hyear, hday, hplace]
  rfl

end Dates

end Clawreform.Lib.Calendar
