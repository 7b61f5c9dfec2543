import Clawreform.Lib.Text

namespace Clawreform.Runtime.StrUtils

open Clawreform.Lib.Text

/-- Walk backwards from a byte offset to the nearest character boundary and cut
there. -/
def cutBackwards : Nat → Str → Str
  | 0, _ => []
  | n + 1, s =>
    match splitBytes (n + 1) s with
    | some p => p.1
    | none => cutBackwards n s

def safeTruncateStr (s : Str) (maxBytes : Nat) : Str :=
  if byteLen s ≤ maxBytes then s else cutBackwards maxBytes s

theorem cutBackwards_fits (n : Nat) (s : Str) :
    cutBackwards n s <+: s ∧ byteLen (cutBackwards n s) ≤ n := by
  induction n with
  | zero => simp [cutBackwards]
  | succ n ih =>
    rw [cutBackwards]
    cases h : splitBytes (n + 1) s with
    | none => exact ⟨ih.1, Nat.le_succ_of_le ih.2⟩
    | some p =>
      obtain ⟨rfl, hl⟩ := splitBytes_eq (a := p.1) (b := p.2) h
      exact ⟨List.prefix_append _ _, le_of_eq hl⟩

theorem safeTruncateStr_fits (s : Str) (maxBytes : Nat) :
    safeTruncateStr s maxBytes <+: s ∧ byteLen (safeTruncateStr s maxBytes) ≤ maxBytes := by
  unfold safeTruncateStr
  split <;> rename_i h
  · exact ⟨List.prefix_rfl, h⟩
  · exact cutBackwards_fits maxBytes s

end Clawreform.Runtime.StrUtils
