import Clawreform.Lib.Slices
import Clawreform.Lib.Splitting

namespace Clawreform.Lib.Scan

open Clawreform.Lib.Text Clawreform.Lib.Find Clawreform.Lib.Slices Clawreform.Lib.Splitting

section Code

/-- Why there is no result: a slice off a character boundary, or turns without end. -/
inductive Stop where
  | sliced
  | endless
  deriving DecidableEq

/-- The slice from a byte offset on. -/
def rest (pos : Nat) (s : Str) : Except Stop Str :=
  match splitBytes pos s with
  | some p => .ok p.2
  | none => .error .sliced

/-- The slice between two byte offsets. -/
def part (start stop : Nat) (s : Str) : Except Stop Str :=
  if start ≤ stop then
    match slice start stop s with
    | some p => .ok p.2
    | none => .error .sliced
  else .error .sliced

/-- The byte offset of the first occurrence. -/
def findByte (pat s : Str) : Option Nat := (find pat s).map fun n => byteLen (s.take n)

/-- A loop with a position in a text. A turn writes a piece and moves the position on. -/
def scanLoop (len : Nat) (turn : Nat → Except Stop (Str × Nat)) : Nat → Nat → Except Stop Str
  | 0, _ => .error .endless
  | turns + 1, pos =>
    if pos < len then do
      let (piece, next) ← turn pos
      let text ← scanLoop len turn turns next
      pure (piece ++ text)
    else pure []

end Code

section Slicing

variable {a b c s pat : Str} {n pos start stop : Nat} {m : Char}

theorem rest_append (a b : Str) : rest (byteLen a) (a ++ b) = .ok b := by
  rw [rest, splitBytes_append]

theorem part_append (a b c : Str) :
    part (byteLen a) (byteLen a + byteLen b) (a ++ (b ++ c)) = .ok b := by
  rw [part, if_pos (Nat.le_add_right _ _), slice, splitBytes_append, Option.bind_some,
    Nat.add_sub_cancel_left, splitBytes_append]
  rfl

theorem exists_of_findByte (hne : pat ≠ []) (h : findByte pat s = some n) :
    ∃ a b, s = a ++ (pat ++ b) ∧ byteLen a = n := by
  obtain ⟨k, hk, rfl⟩ := Option.map_eq_some_iff.mp h
  obtain ⟨a, b, rfl, rfl, -⟩ := exists_of_find hne hk
  refine ⟨a, b, List.append_assoc a pat b, ?_⟩
  rw [List.append_assoc, List.take_left]

theorem findByte_notMem (h : m ∉ a) (b : Str) : findByte [m] (a ++ m :: b) = some (byteLen a) := by
  have hfind : find [m] (a ++ m :: b) = some a.length := find_notMem h
  rw [findByte, hfind, Option.map_some, List.take_left]

theorem findByte_notMem_none (h : m ∉ a) : findByte [m] a = none := by
  rw [findByte, find_eq_none_iff.mpr]
  · rfl
  · exact fun hinf => h (hinf.subset List.mem_cons_self)

theorem byteLen_rest (h : rest pos s = .ok a) : pos + byteLen a = byteLen s := by
  rw [rest] at h
  split at h
  · rename_i p hp
    cases h
    obtain ⟨rfl, hlen⟩ := splitBytes_eq hp
    rw [byteLen_append, hlen]
  · cases h

theorem exists_of_part (h : part start stop s = .ok a) :
    ∃ x b, s = x ++ (a ++ b) ∧ byteLen x = start ∧ byteLen a = stop - start := by
  rw [part] at h
  split at h
  · split at h
    · rename_i p hp
      cases h
      obtain ⟨q, hq, hx⟩ := Option.bind_eq_some_iff.mp hp
      obtain ⟨y, hy, rfl⟩ := Option.map_eq_some_iff.mp hx
      obtain ⟨rfl, hstart⟩ := splitBytes_eq hq
      obtain ⟨hbehind, hlen⟩ := splitBytes_eq hy
      exact ⟨q.1, y.2, by rw [← hbehind], hstart, hlen⟩
    · cases h
  · cases h

end Slicing

section Ends

variable {α β : Type} {x : Except Stop α} {f : α → Except Stop β} {pos start stop len turns : Nat}
  {s : Str} {turn : Nat → Except Stop (Str × Nat)}

theorem ok_bind (a : α) (f : α → Except Stop β) : (Except.ok a >>= f) = f a := rfl

def Ends (x : Except Stop α) : Prop := x ≠ .error .endless

theorem ends_pure (a : α) : Ends (pure a : Except Stop α) := nofun

theorem ends_bind (hx : Ends x) (hf : ∀ a, x = .ok a → Ends (f a)) : Ends (x >>= f) := by
  cases x with
  | ok a => exact hf a rfl
  | error e =>
    intro h
    cases h
    exact hx rfl

theorem ends_rest : Ends (rest pos s) := by
  rw [rest]
  split <;> nofun

theorem ends_part : Ends (part start stop s) := by
  rw [part]
  split
  · split <;> nofun
  · nofun

/-- A turn comes to an end, and the place behind it is a later one. -/
def Forward (pos : Nat) (x : Except Stop (Str × Nat)) : Prop :=
  Ends x ∧ ∀ p, x = .ok p → pos < p.2

theorem forward_pure {n : Nat} (s : Str) (h : pos < n) : Forward pos (pure (s, n)) := by
  refine ⟨ends_pure _, ?_⟩
  intro p hp
  cases hp
  exact h

theorem forward_bind {f : α → Except Stop (Str × Nat)} (hx : Ends x)
    (hf : ∀ a, x = .ok a → Forward pos (f a)) : Forward pos (x >>= f) := by
  refine ⟨ends_bind hx fun a ha => (hf a ha).1, ?_⟩
  intro p hp
  cases x with
  | ok a => exact (hf a rfl).2 p hp
  | error e => cases hp

/-- Turns that move on come to the end of the text. -/
theorem ends_scanLoop (hturn : ∀ pos < len, Forward pos (turn pos)) (hturns : len - pos < turns) :
    Ends (scanLoop len turn turns pos) := by
  induction turns generalizing pos with
  | zero => exact absurd hturns (Nat.not_lt_zero _)
  | succ turns ih =>
    rw [scanLoop]
    split
    · rename_i hpos
      refine ends_bind (hturn pos hpos).1 fun p hp => ?_
      have hlt := (hturn pos hpos).2 p hp
      exact ends_bind (ih (by omega)) fun text _ => ends_pure _
    · exact ends_pure _

end Ends

section Runs

variable {len pos turns : Nat} {turn : Nat → Except Stop (Str × Nat)} {At : Nat → Prop}
  {Out : Nat → Str → Prop}

/-- When each turn goes well at the places that are reached, the loop does. -/
theorem scanLoop_ok (hend : ∀ pos, len ≤ pos → Out pos [])
    (hturn : ∀ pos < len, At pos → ∃ p, turn pos = .ok p ∧ pos < p.2 ∧ (p.2 < len → At p.2) ∧
      ∀ text, Out p.2 text → Out pos (p.1 ++ text))
    (hat : pos < len → At pos) (hturns : len - pos < turns) :
    ∃ text, scanLoop len turn turns pos = .ok text ∧ Out pos text := by
  induction turns generalizing pos with
  | zero => exact absurd hturns (Nat.not_lt_zero _)
  | succ turns ih =>
    rw [scanLoop]
    split
    · rename_i hpos
      obtain ⟨p, hp, hlt, hnext, hout⟩ := hturn pos hpos (hat hpos)
      obtain ⟨text, htext, hrest⟩ := ih hnext (by omega)
      refine ⟨p.1 ++ text, ?_, hout text hrest⟩
      rw [hp]
      show (scanLoop len turn turns p.2 >>= fun text => pure (p.1 ++ text)) = .ok (p.1 ++ text)
      rw [htext]
      rfl
    · rename_i hpos
      exact ⟨[], rfl, hend pos (Nat.le_of_not_lt hpos)⟩

end Runs

end Clawreform.Lib.Scan
