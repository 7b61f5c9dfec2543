import Clawreform.Lib.Text

namespace Clawreform.Lib.Slices

open Clawreform.Lib.Text

variable {a b s t : Str} {c d : Char} {n lo hi : Nat}

theorem splitBytes_append (a b : Str) : splitBytes (byteLen a) (a ++ b) = some (a, b) := by
  induction a with
  | nil => rw [byteLen_nil, List.nil_append, splitBytes]
  | cons c a ih =>
    obtain ⟨n, hn⟩ : ∃ n, c.utf8Size = n + 1 := ⟨c.utf8Size - 1, by have := c.utf8Size_pos; omega⟩
    have hle : c.utf8Size ≤ n + byteLen a + 1 := by omega
    have hrest : n + byteLen a + 1 - c.utf8Size = byteLen a := by omega
    rw [byteLen_cons, hn, show n + 1 + byteLen a = n + byteLen a + 1 by omega, List.cons_append,
      splitBytes, if_pos hle, hrest, ih]
    rfl

theorem splitBytes_iff : splitBytes n s = some (a, b) ↔ s = a ++ b ∧ byteLen a = n := by
  constructor
  · exact splitBytes_eq
  · rintro ⟨rfl, rfl⟩
    exact splitBytes_append a b

theorem byteLen_replicate (n : Nat) (c : Char) :
    byteLen (List.replicate n c) = n * c.utf8Size := by
  rw [byteLen, List.map_replicate, List.sum_replicate_nat]

theorem isSome_splitBytes_iff :
    (splitBytes n s).isSome ↔ ∃ a b, s = a ++ b ∧ byteLen a = n := by
  constructor
  · intro h
    obtain ⟨⟨a, b⟩, hcut⟩ := Option.isSome_iff_exists.mp h
    exact ⟨a, b, splitBytes_eq hcut⟩
  · rintro ⟨a, b, hab⟩
    rw [splitBytes_iff.mpr hab]
    rfl

theorem eq_nil_of_byteLen (h : byteLen s = 0) : s = [] := by
  cases s with
  | nil => rfl
  | cons c s =>
    have hpos := c.utf8Size_pos
    rw [byteLen_cons] at h
    omega

theorem byteLen_pos (h : s ≠ []) : 0 < byteLen s :=
  Nat.pos_of_ne_zero fun hzero => h (eq_nil_of_byteLen hzero)

/-- Of two beginnings of a text, the shorter one is a beginning of the other. -/
theorem prefix_of_byteLen_le (ha : a <+: s) (hb : b <+: s) (h : byteLen a ≤ byteLen b) :
    a <+: b := by
  obtain hab | ⟨c, rfl⟩ := List.prefix_or_prefix_of_prefix ha hb
  · exact hab
  · rw [byteLen_append] at h
    rw [eq_nil_of_byteLen (by omega : byteLen c = 0), List.append_nil]

theorem slice_some {front mid : Str} (hle : lo ≤ hi) (h : slice lo hi s = some (front, mid)) :
    ∃ back, s = front ++ mid ++ back ∧ byteLen front = lo ∧ byteLen (front ++ mid) = hi := by
  rw [slice, Option.bind_eq_some_iff] at h
  obtain ⟨⟨a, b⟩, hfirst, hsecond⟩ := h
  rw [Option.map_eq_some_iff] at hsecond
  obtain ⟨⟨c, d⟩, hsplit, heq⟩ := hsecond
  obtain ⟨rfl, rfl⟩ := Prod.mk.inj heq
  obtain ⟨rfl, hfront⟩ := splitBytes_eq hfirst
  obtain ⟨rfl, hmid⟩ := splitBytes_eq hsplit
  refine ⟨d, by rw [List.append_assoc], hfront, ?_⟩
  rw [byteLen_append, hfront, hmid]
  omega

/-- Slicing does not panic when both ends are boundaries. -/
theorem isSome_slice_iff (hle : lo ≤ hi) :
    (slice lo hi s).isSome ↔ (splitBytes lo s).isSome ∧ (splitBytes hi s).isSome := by
  constructor
  · intro h
    obtain ⟨⟨front, mid⟩, hslice⟩ := Option.isSome_iff_exists.mp h
    obtain ⟨back, hu, hfront, hmid⟩ := slice_some hle hslice
    exact ⟨isSome_splitBytes_iff.mpr ⟨front, mid ++ back, by rw [hu, List.append_assoc], hfront⟩,
      isSome_splitBytes_iff.mpr ⟨front ++ mid, back, hu, hmid⟩⟩
  · rintro ⟨hlo, hhi⟩
    obtain ⟨a, b, rfl, rfl⟩ := isSome_splitBytes_iff.mp hlo
    obtain ⟨a', b', hu, rfl⟩ := isSome_splitBytes_iff.mp hhi
    obtain ⟨m, rfl⟩ := prefix_of_byteLen_le (List.prefix_append a b)
      (hu ▸ List.prefix_append a' b') hle
    rw [List.append_assoc, List.append_cancel_left_eq] at hu
    have hlength : byteLen (a ++ m) - byteLen a = byteLen m := by
      rw [byteLen_append, Nat.add_sub_cancel_left]
    rw [slice, splitBytes_append, Option.bind_some, hlength, hu, splitBytes_append]
    rfl

/-- The byte offset of the last occurrence of a character. -/
def rfindChar (d : Char) : Str → Option Nat
  | [] => none
  | c :: s =>
    match rfindChar d s with
    | some pos => some (c.utf8Size + pos)
    | none => if c = d then some 0 else none

theorem rfindChar_none (h : d ∉ s) : rfindChar d s = none := by
  induction s with
  | nil => rfl
  | cons c s ih =>
    obtain ⟨hc, hs⟩ : d ≠ c ∧ d ∉ s := by simpa using h
    rw [rfindChar, ih hs]
    exact if_neg hc.symm

theorem rfindChar_last (h : d ∉ b) (a : Str) : rfindChar d (a ++ d :: b) = some (byteLen a) := by
  induction a with
  | nil =>
    rw [List.nil_append, rfindChar, rfindChar_none h]
    exact if_pos rfl
  | cons c a ih => rw [List.cons_append, rfindChar, ih, byteLen_cons]

theorem exists_last (h : d ∈ s) : ∃ a b, s = a ++ d :: b ∧ d ∉ b := by
  induction s with
  | nil => cases h
  | cons c s ih =>
    by_cases hs : d ∈ s
    · obtain ⟨a, b, rfl, hb⟩ := ih hs
      exact ⟨c :: a, b, rfl, hb⟩
    · obtain rfl | h := List.mem_cons.mp h
      · exact ⟨[], s, rfl, hs⟩
      · exact absurd h hs

end Clawreform.Lib.Slices
