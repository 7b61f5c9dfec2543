import Mathlib.Data.Rat.Defs
import Mathlib.Algebra.Order.Field.Rat
import Mathlib.Order.WithBot

namespace Clawreform.Lib

/-- The values of the IEEE 754 double format; the two zeros are one value here,
as they are for every comparison. -/
inductive Binary64
  | nan
  | infinite (negative : Bool)
  | finite (value : ℚ)
  deriving DecidableEq

/-- The place of a value in the order; `nan` has none. -/
def Binary64.rank : Binary64 → Option (WithBot (WithTop ℚ))
  | .nan => none
  | .infinite true => some ⊥
  | .infinite false => some ((⊤ : WithTop ℚ) : WithBot (WithTop ℚ))
  | .finite v => some ((v : WithTop ℚ) : WithBot (WithTop ℚ))

/-- `a >= b`: false as soon as one side is `nan`. -/
def Binary64.ge (a b : Binary64) : Bool :=
  match a.rank, b.rank with
  | some x, some y => decide (y ≤ x)
  | _, _ => false

theorem Binary64.ge_iff (a b : Binary64) :
    a.ge b = true ↔ ∃ x y, a.rank = some x ∧ b.rank = some y ∧ y ≤ x := by
  unfold Binary64.ge
  cases ha : a.rank <;> cases hb : b.rank <;> simp

theorem Binary64.ge_trans {a b c : Binary64} (hab : a.ge b = true) (hbc : b.ge c = true) :
    a.ge c = true := by
  obtain ⟨x, y, hx, hy, hyx⟩ := (ge_iff a b).mp hab
  obtain ⟨y', z, hy', hz, hzy⟩ := (ge_iff b c).mp hbc
  obtain rfl : y = y' := by rwa [hy, Option.some.injEq] at hy'
  exact (ge_iff a c).mpr ⟨x, z, hx, hz, hzy.trans hyx⟩

/-- The nearest natural number with at most 53 significant bits, the even one of
two: what an integer becomes as a double. -/
def roundSignificand (n : Nat) : Nat :=
  let shift := n.log2 - 52
  let kept := n / 2 ^ shift
  let rest := 2 * (n % 2 ^ shift)
  if 2 ^ shift < rest ∨ (rest = 2 ^ shift ∧ kept % 2 = 1) then (kept + 1) * 2 ^ shift
  else kept * 2 ^ shift

/-- The significand over `2 ^ scale` of the decimal literal `num / den`. -/
def literalSignificand (num den scale : Nat) : Nat := (2 * num * 2 ^ scale + den) / (2 * den)

/-- `(n as f64 * c) as usize` for a literal `c` with the given significand over
`2 ^ scale`. -/
def scaleToUsize (n significand scale : Nat) : Nat :=
  min (roundSignificand (roundSignificand n * significand) / 2 ^ scale) (2 ^ 64 - 1)

example : scaleToUsize 200000 (literalSignificand 70 100 53) 53 = 140000 := by decide

theorem roundSignificand_of_lt {n : Nat} (h : n < 2 ^ 53) : roundSignificand n = n := by
  have hlog : n.log2 - 52 = 0 := by
    obtain rfl | hn := Nat.eq_zero_or_pos n
    · rfl
    · have := (Nat.log2_lt hn.ne').mpr h
      omega
  rw [roundSignificand, hlog, Nat.pow_zero, Nat.mod_one, Nat.div_one, Nat.mul_one, Nat.mul_one]
  exact if_neg (by omega)

theorem half_place {below place rest n u : Nat} (hn : below + rest = n)
    (hplace : place * u ≤ n) (hhalf : place ≤ 2 * rest) :
    (below + place) * (2 * u) ≤ n * (2 * u) + n := by
  have htwice := Nat.mul_le_mul_right u hhalf
  have hrest : place * (2 * u) ≤ rest * (2 * u) + n := by
    rw [Nat.mul_left_comm, Nat.mul_left_comm rest, ← Nat.mul_assoc 2 rest]
    omega
  rw [Nat.add_mul, ← hn, Nat.add_mul below rest, hn]
  omega

/-- Rounding adds at most half of the last place. -/
theorem roundSignificand_le (n : Nat) : roundSignificand n * 2 ^ 53 ≤ n * 2 ^ 53 + n := by
  by_cases h : n < 2 ^ 53
  · rw [roundSignificand_of_lt h]
    exact Nat.le_add_right _ n
  · have hn : n ≠ 0 := by omega
    have hlog : 53 ≤ n.log2 := (Nat.le_log2 hn).mpr (Nat.not_lt.mp h)
    have hplace : 2 ^ (n.log2 - 52) * 2 ^ 52 ≤ n := by
      rw [← Nat.pow_add, Nat.sub_add_cancel (by omega)]
      exact Nat.log2_self_le hn
    have hdiv : n / 2 ^ (n.log2 - 52) * 2 ^ (n.log2 - 52) + n % 2 ^ (n.log2 - 52) = n := by
      rw [Nat.mul_comm]
      exact Nat.div_add_mod n _
    rw [roundSignificand]
    split
    case isTrue hup =>
      have hhalf := hup.elim Nat.le_of_lt fun h => h.1.ge
      rw [Nat.add_mul (n / _), Nat.one_mul]
      exact half_place (u := 2 ^ 52) hdiv hplace hhalf
    case isFalse =>
      refine (Nat.mul_le_mul_right _ ?_).trans (Nat.le_add_right _ n)
      exact Nat.div_mul_le_self n _

/-- Rounding does not go below what has fewer places. -/
theorem le_roundSignificand {m k n : Nat} (hle : m * 2 ^ k ≤ n) (hlt : n < 2 ^ (53 + k)) :
    m * 2 ^ k ≤ roundSignificand n := by
  have hshift : n.log2 - 52 ≤ k := by
    obtain rfl | hn := Nat.eq_zero_or_pos n
    · exact Nat.zero_le k
    · have := (Nat.log2_lt hn.ne').mpr hlt
      omega
  obtain ⟨j, rfl⟩ := Nat.exists_eq_add_of_le hshift
  have hkept : m * 2 ^ (n.log2 - 52 + j) ≤ n / 2 ^ (n.log2 - 52) * 2 ^ (n.log2 - 52) := by
    rw [Nat.pow_add, Nat.mul_comm (2 ^ (n.log2 - 52)), ← Nat.mul_assoc] at hle ⊢
    exact Nat.mul_le_mul_right _ ((Nat.le_div_iff_mul_le (Nat.two_pow_pos _)).mpr hle)
  rw [roundSignificand]
  split
  · exact hkept.trans (Nat.mul_le_mul_right _ (Nat.le_succ _))
  · exact hkept

/-- Scaling of an integer that a double holds exactly. -/
theorem scaleToUsize_le (sig : Nat) {w : Nat} (hw : w < 2 ^ 53) :
    scaleToUsize w sig 53 * 2 ^ 106 ≤ w * sig * 2 ^ 53 + w * sig := by
  have hround := roundSignificand_le (w * sig)
  have hdiv := Nat.div_mul_le_self (roundSignificand (w * sig)) (2 ^ 53)
  rw [scaleToUsize, roundSignificand_of_lt hw]
  calc min (roundSignificand (w * sig) / 2 ^ 53) (2 ^ 64 - 1) * 2 ^ 106
      ≤ roundSignificand (w * sig) / 2 ^ 53 * 2 ^ 106 :=
        Nat.mul_le_mul_right _ (Nat.min_le_left _ _)
    _ = roundSignificand (w * sig) / 2 ^ 53 * 2 ^ 53 * 2 ^ 53 := by
        rw [Nat.mul_assoc, ← Nat.pow_add]
    _ ≤ roundSignificand (w * sig) * 2 ^ 53 := Nat.mul_le_mul_right _ hdiv
    _ ≤ w * sig * 2 ^ 53 + w * sig := hround

end Clawreform.Lib
