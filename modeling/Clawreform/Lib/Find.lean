import Clawreform.Lib.Infix
import Clawreform.Lib.Text

namespace Clawreform.Lib.Find

open Clawreform.Lib.Text Clawreform.Lib.Infix

variable {pat s t a b : Str} {c : Char} {n : Nat}

theorem find_le (h : find pat s = some n) : n + pat.length ≤ s.length := by
  induction s generalizing n with
  | nil =>
    simp only [find] at h
    split at h
    · rename_i hpat
      cases h
      simp [hpat]
    · cases h
  | cons c s ih =>
    simp only [find] at h
    split at h
    · rename_i hpat
      cases h
      simpa using hpat.length_le
    · obtain ⟨m, hm, rfl⟩ := Option.map_eq_some_iff.mp h
      have hle := ih hm
      rw [List.length_cons]
      omega

/-- What is found in a text is found at the same place when more follows. -/
theorem find_append (h : find pat s = some n) : find pat (s ++ t) = some n := by
  induction s generalizing n with
  | nil =>
    simp only [find] at h
    split at h
    · rename_i hpat
      cases h
      cases t <;> simp [find, hpat]
    · cases h
  | cons c s ih =>
    have hle := find_le h
    simp only [find] at h
    rw [List.cons_append, find]
    split at h
    · rename_i hpat
      cases h
      have hpre : pat <+: c :: (s ++ t) := hpat.trans (List.prefix_append (c :: s) t)
      rw [if_pos hpre]
    · rename_i hpat
      obtain ⟨m, hm, rfl⟩ := Option.map_eq_some_iff.mp h
      have hnot : ¬ pat <+: c :: (s ++ t) := by
        intro hpre
        apply hpat
        exact List.prefix_of_prefix_length_le hpre (List.prefix_append (c :: s) t) (by omega)
      rw [if_neg hnot, ih hm]
      rfl

theorem find_of_append (h : find pat (s ++ t) = some n) (hlen : n + pat.length ≤ s.length) :
    find pat s = some n := by
  induction s generalizing n with
  | nil =>
    obtain ⟨rfl, hpat⟩ : n = 0 ∧ pat.length = 0 := by simpa using hlen
    rw [find, if_pos (List.eq_nil_of_length_eq_zero hpat)]
  | cons c s ih =>
    rw [List.cons_append, find] at h
    rw [find]
    split at h
    · rename_i hpre
      cases h
      rw [if_pos]
      exact List.prefix_of_prefix_length_le hpre (List.prefix_append (c :: s) t) (by omega)
    · rename_i hnot
      obtain ⟨m, hm, rfl⟩ := Option.map_eq_some_iff.mp h
      have hpre : ¬ pat <+: c :: s := by
        intro hpre
        exact hnot (hpre.trans (List.prefix_append (c :: s) t))
      rw [List.length_cons] at hlen
      rw [if_neg hpre, ih hm (by omega)]
      rfl

theorem find_cons_succ (h : find pat (c :: s) = some (n + 1)) : find pat s = some n := by
  rw [find] at h
  split at h
  · cases h
  · obtain ⟨m, hm, hn⟩ := Option.map_eq_some_iff.mp h
    rw [hm, Nat.succ.inj hn]

theorem find_cons_of_not (hnot : ¬ pat <+: c :: s) :
    find pat (c :: s) = (find pat s).map (· + 1) := by
  rw [find, if_neg hnot]

theorem prefix_of_find_zero (h : find pat s = some 0) : pat <+: s := by
  cases s with
  | nil =>
    rw [find] at h
    split at h
    · rename_i hpat
      rw [hpat]
    · cases h
  | cons c s =>
    rw [find] at h
    split at h
    · assumption
    · obtain ⟨m, -, hm⟩ := Option.map_eq_some_iff.mp h
      cases hm

theorem find_eq_none_iff : find pat s = none ↔ ¬ pat <:+: s := by
  induction s with
  | nil => simp [find]
  | cons c s ih =>
    rw [find, List.infix_cons_iff, not_or]
    by_cases hpre : pat <+: c :: s
    · simp [hpre]
    · simp [hpre, ih]

/-- A place is the first one when the pattern does not end before it does there. -/
theorem find_append_iff (hne : pat ≠ []) :
    find pat (a ++ pat ++ b) = some a.length ↔ ¬ pat <:+: a ++ pat.dropLast := by
  have hshort : pat.dropLast.length < pat.length := by
    have := List.length_pos_of_ne_nil hne
    rw [List.length_dropLast]
    omega
  induction a with
  | nil =>
    rw [List.nil_append, List.nil_append, List.length_nil]
    have hzero : find pat (pat ++ b) = some 0 := by
      obtain ⟨c, pat, rfl⟩ := List.exists_cons_of_ne_nil hne
      exact if_pos (List.prefix_append (c :: pat) b)
    exact ⟨fun _ => not_infix_of_length hshort, fun _ => hzero⟩
  | cons c a ih =>
    have hpre : pat <+: c :: (a ++ pat ++ b) ↔ pat <+: c :: (a ++ pat.dropLast) := by
      have hlong : pat.length ≤ (c :: (a ++ pat.dropLast)).length := by
        rw [List.length_cons, List.length_append, List.length_dropLast]
        omega
      have hends : c :: (a ++ pat.dropLast) <+: c :: (a ++ pat ++ b) := by
        rw [List.append_assoc, List.prefix_cons_inj, List.prefix_append_right_inj]
        exact (List.dropLast_prefix pat).trans (List.prefix_append pat b)
      constructor
      · exact fun h => List.prefix_of_prefix_length_le h hends hlong
      · exact fun h => h.trans hends
    rw [List.cons_append, List.cons_append, find, List.cons_append, List.infix_cons_iff, not_or,
      List.length_cons]
    by_cases hstart : pat <+: c :: (a ++ pat.dropLast)
    · rw [if_pos (hpre.mpr hstart)]
      simp [hstart]
    · rw [if_neg (mt hpre.mp hstart)]
      simpa [hstart] using ih

theorem exists_of_find (hne : pat ≠ []) (h : find pat s = some n) :
    ∃ a b, s = a ++ pat ++ b ∧ a.length = n ∧ ¬ pat <:+: a ++ pat.dropLast := by
  obtain ⟨a, b, rfl, rfl⟩ : ∃ a b, s = a ++ pat ++ b ∧ a.length = n := by
    induction s generalizing n with
    | nil => simp [find, hne] at h
    | cons c s ih =>
      rw [find] at h
      split at h
      · rename_i hpre
        obtain ⟨b, hb⟩ := hpre
        cases h
        exact ⟨[], b, by simp [hb], rfl⟩
      · obtain ⟨m, hm, rfl⟩ := Option.map_eq_some_iff.mp h
        obtain ⟨a, b, rfl, rfl⟩ := ih hm
        exact ⟨c :: a, b, by simp, rfl⟩
  exact ⟨a, b, rfl, rfl, (find_append_iff hne).mp h⟩

end Clawreform.Lib.Find
