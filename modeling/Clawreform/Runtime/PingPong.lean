import Mathlib.Order.Bounds.Basic
import Clawreform.Runtime.LoopGuard

namespace Clawreform.Runtime.LoopGuard

open Clawreform.Lib.Text
open Clawreform.Lib.Json (Value)

section Repeats

variable {κ : Type} {pattern calls : List κ} {r i fuel p : Nat}

/-- The calls end in so many repetitions of a pattern. -/
def EndsIn (pattern : List κ) (r : Nat) (calls : List κ) : Prop :=
  (List.replicate r pattern).flatten <:+ calls

theorem flatten_replicate_succ (pattern : List κ) (r : Nat) :
    (List.replicate (r + 1) pattern).flatten = (List.replicate r pattern).flatten ++ pattern := by
  rw [List.replicate_succ', List.flatten_append, List.flatten_singleton]

theorem endsIn_zero : EndsIn pattern 0 calls := List.nil_suffix

/-- Calls that go through a pattern three times. -/
theorem endsIn_thrice {before : List κ} (hr : r ≤ 3) :
    EndsIn pattern r (before ++ (pattern ++ (pattern ++ pattern))) := by
  match r, hr with
  | 0, _ => exact endsIn_zero
  | 1, _ => exact ⟨before ++ pattern ++ pattern, by simp⟩
  | 2, _ => exact ⟨before ++ pattern, by simp [List.replicate_succ]⟩
  | 3, _ => exact ⟨before, by simp [List.replicate_succ]⟩

theorem endsIn_succ_append :
    EndsIn pattern (r + 1) (calls ++ pattern) ↔ EndsIn pattern r calls := by
  rw [EndsIn, flatten_replicate_succ]
  exact List.suffix_append_self_iff

theorem suffix_of_endsIn_succ (h : EndsIn pattern (r + 1) calls) : pattern <:+ calls := by
  rw [EndsIn, flatten_replicate_succ] at h
  exact (List.suffix_append _ pattern).trans h

variable [DecidableEq κ]

/-- The loop goes back as long as the pattern stands in front of it. -/
theorem endsIn_iff (hne : pattern ≠ []) (hfuel : i ≤ fuel) (hi : i ≤ calls.length) :
    EndsIn pattern r (calls.take i) ↔ r ≤ repeatsBefore pattern calls fuel i := by
  have hpos := List.length_pos_of_ne_nil hne
  induction fuel generalizing i r with
  | zero =>
    obtain rfl := Nat.le_zero.mp hfuel
    cases r with
    | zero => exact iff_of_true endsIn_zero (Nat.le_refl 0)
    | succ r =>
      refine iff_of_false (fun h => ?_) (Nat.not_succ_le_zero r)
      exact hne (List.suffix_nil.mp (suffix_of_endsIn_succ h))
  | succ fuel ih =>
    rw [repeatsBefore]
    split
    · rename_i hlast
      obtain ⟨hle, hlast⟩ := hlast
      have htake : calls.take i = calls.take (i - pattern.length) ++ pattern := by
        conv_lhs => rw [← Nat.sub_add_cancel hle, List.take_add, hlast]
      cases r with
      | zero => exact iff_of_true endsIn_zero (Nat.zero_le _)
      | succ r =>
        rw [htake, endsIn_succ_append, Nat.succ_le_succ_iff]
        exact ih (by omega) (by omega)
    · rename_i hlast
      cases r with
      | zero => exact iff_of_true endsIn_zero (Nat.zero_le _)
      | succ r =>
        refine iff_of_false (fun h => hlast ?_) (Nat.not_succ_le_zero r)
        obtain ⟨before, hbefore⟩ := suffix_of_endsIn_succ h
        have hlen := congrArg List.length hbefore
        rw [List.length_append, List.length_take, Nat.min_eq_left hi] at hlen
        refine ⟨by omega, ?_⟩
        have hdrop : i - pattern.length = before.length := by omega
        rw [hdrop, List.take_drop, hlen, ← hbefore, List.drop_left]

end Repeats

section Reported

variable {κ : Type} [DecidableEq κ] {g : LoopGuard κ} {pattern calls : List κ} {p : Nat}

theorem cycle_some (h : cycle p calls = some pattern) :
    pattern.length = p ∧ ¬ (∀ c ∈ pattern, some c = pattern.head?) ∧
      ∃ before, calls = before ++ (pattern ++ (pattern ++ pattern)) := by
  simp only [cycle] at h
  split at h
  · rename_i hcycle
    obtain ⟨hlen, hdiffer, htail⟩ := hcycle
    obtain rfl := Option.some.inj h
    refine ⟨?_, hdiffer, calls.take (calls.length - 3 * p), ?_⟩
    · rw [List.length_take, List.length_drop]
      omega
    · rw [← htail, List.take_append_drop]
  · cases h

/-- The pattern that a ping-pong is reported for. -/
def reportedPattern (g : LoopGuard κ) : Option (List κ) :=
  (cycle 2 g.recentCalls).or (cycle 3 g.recentCalls)

/-- A pattern of two calls is looked for first, one of three calls when there is none. -/
theorem reportedPattern_some (h : g.reportedPattern = some pattern) :
    cycle 2 g.recentCalls = some pattern ∨
      cycle 2 g.recentCalls = none ∧ cycle 3 g.recentCalls = some pattern :=
  Option.or_eq_some_iff.mp h

theorem detectPingPong_isSome : g.detectPingPong.isSome = g.reportedPattern.isSome := by
  unfold detectPingPong reportedPattern
  cases htwo : cycle 2 g.recentCalls with
  | some pattern =>
    obtain ⟨a, b, rfl⟩ := List.length_eq_two.mp (cycle_some htwo).1
    rfl
  | none =>
    cases hthree : cycle 3 g.recentCalls with
    | some pattern =>
      obtain ⟨a, b, c, rfl⟩ := List.length_eq_three.mp (cycle_some hthree).1
      rfl
    | none => rfl

/-- What is counted for calls that end twice in a pattern. -/
theorem le_repeatsOf_iff {r : Nat} (hne : pattern ≠ []) (htwice : EndsIn pattern 2 calls)
    (hdiffer : ¬ ∀ c ∈ pattern, some c = pattern.head?) :
    r ≤ repeatsOf pattern.length calls ↔ EndsIn pattern r calls := by
  have hlen : 2 * pattern.length ≤ calls.length := by
    have := htwice.length_le
    simpa [two_mul] using this
  have hlast : calls.drop (calls.length - pattern.length) = pattern := by
    obtain ⟨before, rfl⟩ := suffix_of_endsIn_succ htwice
    rw [List.length_append, Nat.add_sub_cancel, List.drop_left]
  have hcount : repeatsOf pattern.length calls =
      repeatsBefore pattern calls calls.length calls.length := by
    simp only [repeatsOf, hlast]
    exact if_pos ⟨hlen, hdiffer⟩
  rw [hcount, ← endsIn_iff hne (Nat.le_refl _) (Nat.le_refl _), List.take_length]

/-- Three calls that are repeated do not end in two calls that are. -/
theorem repeatsOf_two_lt (before : List κ) (a b c : κ) :
    repeatsOf 2 (before ++ ([a, b, c] ++ ([a, b, c] ++ [a, b, c]))) < 2 := by
  have hsplit : before ++ ([a, b, c] ++ ([a, b, c] ++ [a, b, c])) =
      before ++ [a, b, c, a, b, c, a] ++ [b, c] := by simp
  have hlast : (before ++ [a, b, c, a, b, c, a] ++ [b, c]).drop
      ((before ++ [a, b, c, a, b, c, a] ++ [b, c]).length - 2) = [b, c] := by
    rw [List.length_append, List.length_cons, List.length_singleton, Nat.add_sub_cancel,
      List.drop_left]
  rw [hsplit]
  simp only [repeatsOf, hlast]
  split
  · rename_i hdiffer
    by_contra htwice
    have hends := (endsIn_iff (List.cons_ne_nil b [c]) (Nat.le_refl _) (Nat.le_refl _)).mpr
      (Nat.not_lt.mp htwice)
    rw [List.take_length] at hends
    have hlast : [b, c] <:+ before ++ [a, b, c, a, b] ++ [c, a] := by
      have := suffix_of_endsIn_succ (endsIn_succ_append.mp hends)
      simpa using this
    obtain ⟨front, hfront⟩ := hlast
    have hbc : b = c := (List.cons_eq_cons.mp (List.append_inj' hfront rfl).2).1
    exact hdiffer.2 (by simp [hbc])
  · exact Nat.zero_lt_two

/-- A ping-pong that is reported repeats its pattern as often as is counted, and no more. -/
theorem countPingPongRepeats_spec (h : g.reportedPattern = some pattern) :
    (pattern.length = 2 ∨ pattern.length = 3) ∧
      IsGreatest {r | EndsIn pattern r g.recentCalls} g.countPingPongRepeats ∧
      3 ≤ g.countPingPongRepeats := by
  obtain htwo | ⟨htwo, hthree⟩ := reportedPattern_some h
  · obtain ⟨hlen, hdiffer, before, hcalls⟩ := cycle_some htwo
    have hne : pattern ≠ [] := List.ne_nil_of_length_pos (by omega)
    have hrepeats : ∀ r, r ≤ repeatsOf 2 g.recentCalls ↔ EndsIn pattern r g.recentCalls := by
      intro r
      rw [← hlen]
      exact le_repeatsOf_iff hne (hcalls ▸ endsIn_thrice (by omega)) hdiffer
    have hthrice := (hrepeats 3).mpr (hcalls ▸ endsIn_thrice (Nat.le_refl 3))
    have hcount : g.countPingPongRepeats = repeatsOf 2 g.recentCalls := by
      rw [countPingPongRepeats, if_pos (by omega)]
    rw [hcount]
    exact ⟨.inl hlen, ⟨(hrepeats _).mp (Nat.le_refl _), fun r => (hrepeats r).mpr⟩, hthrice⟩
  · obtain ⟨hlen, hdiffer, before, hcalls⟩ := cycle_some hthree
    have hne : pattern ≠ [] := List.ne_nil_of_length_pos (by omega)
    have hrepeats : ∀ r, r ≤ repeatsOf 3 g.recentCalls ↔ EndsIn pattern r g.recentCalls := by
      intro r
      rw [← hlen]
      exact le_repeatsOf_iff hne (hcalls ▸ endsIn_thrice (by omega)) hdiffer
    have hthrice := (hrepeats 3).mpr (hcalls ▸ endsIn_thrice (Nat.le_refl 3))
    have hnot : repeatsOf 2 g.recentCalls < 2 := by
      obtain ⟨a, b, c, rfl⟩ := List.length_eq_three.mp hlen
      rw [hcalls]
      exact repeatsOf_two_lt before a b c
    have hcount : g.countPingPongRepeats = repeatsOf 3 g.recentCalls := by
      rw [countPingPongRepeats, if_neg (by omega), if_pos (by omega)]
    rw [hcount]
    exact ⟨.inr hlen, ⟨(hrepeats _).mp (Nat.le_refl _), fun r => (hrepeats r).mpr⟩, hthrice⟩

end Reported

section Verdicts

variable {κ : Type} [DecidableEq κ] (H : Hashing κ) (g : LoopGuard κ) (toolName : Str)
  (params : Value)

/-- The guard as a check leaves it for the search of a ping-pong. -/
def counted : LoopGuard κ :=
  (g.countTotal.remember (H.computeHash toolName params) toolName).countCall
    (H.computeHash toolName params)

/-- A check gets past the circuit breaker, the outcomes and the counts of its own call. -/
def GetsPast : Prop :=
  let count := (g.counted H toolName params).callCounts (H.computeHash toolName params)
  ¬ g.config.globalCircuitBreaker < g.totalCalls + 1 ∧
    g.blockedOutcomes (H.computeHash toolName params) = false ∧
    count < H.effectiveBlock g.config toolName params ∧
    count < H.effectiveWarn g.config toolName params

variable {H g toolName params}

theorem check_of_getsPast (h : g.GetsPast H toolName params) :
    g.check H toolName params =
      (g.counted H toolName params).checkPingPong (H.computeHash toolName params) := by
  obtain ⟨hlimit, hopen, hblock, hwarn⟩ := h
  unfold check
  dsimp only
  refine (if_neg hlimit).trans ((if_neg (Bool.eq_false_iff.mp hopen)).trans ?_)
  exact (if_neg (UInt32.not_le.mpr hblock)).trans (if_neg (UInt32.not_le.mpr hwarn))

/-- With few repeats asked for, every ping-pong that is found is blocked. -/
theorem checkPingPong_of_detected {g : LoopGuard κ} {text : Str} {hash : κ}
    (hmin : g.config.pingPongMinRepeats ≤ 3) (h : g.detectPingPong = some text) :
    g.checkPingPong hash = (g.countBlocked, .block text) := by
  obtain ⟨pattern, hpattern⟩ : ∃ pattern, g.reportedPattern = some pattern := by
    rw [← Option.isSome_iff_exists, ← detectPingPong_isSome, h]
    rfl
  have hmin : g.config.pingPongMinRepeats.toNat ≤ 3 := UInt32.le_iff_toNat_le.mp hmin
  have hcount := (countPingPongRepeats_spec hpattern).2.2
  simp only [checkPingPong, h]
  rw [if_pos (Nat.le_trans hmin hcount)]

theorem check_warn {text : Str} (hmin : g.config.pingPongMinRepeats ≤ 3)
    (h : (g.check H toolName params).2 = .warn text) :
    text = warningText toolName
      ((g.counted H toolName params).callCounts (H.computeHash toolName params)) := by
  by_cases hpast : g.GetsPast H toolName params
  · rw [check_of_getsPast hpast] at h
    cases hdetected : (g.counted H toolName params).detectPingPong with
    | none =>
      simp only [checkPingPong, hdetected] at h
      cases h
    | some found =>
      have hcounted : (g.counted H toolName params).config.pingPongMinRepeats ≤ 3 := hmin
      rw [checkPingPong_of_detected hcounted hdetected] at h
      cases h
  · unfold check at h
    dsimp only at h
    split at h
    · cases h
    · rename_i hlimit
      split at h
      · cases h
      · rename_i hopen
        split at h
        · cases h
        · rename_i hblock
          split at h
          · unfold checkWarnings at h
            dsimp only at h
            split at h
            · cases h
            · exact (LoopGuardVerdict.warn.inj h).symm
          · rename_i hwarn
            exact absurd ⟨hlimit, Bool.eq_false_iff.mpr hopen, UInt32.not_le.mp hblock,
              UInt32.not_le.mp hwarn⟩ hpast

/-- What is counted for a reported ping-pong are all the repeats of its pattern, three at the
least. A check that comes to it then blocks, and only warns about repeats of its own call. -/
theorem pingPong_blocked (H : Hashing κ) (g : LoopGuard κ) (toolName : Str) (params : Value) :
    g.detectPingPong.isSome = g.reportedPattern.isSome ∧
    (∀ pattern, g.reportedPattern = some pattern →
      (pattern.length = 2 ∨ pattern.length = 3) ∧
        IsGreatest {r | EndsIn pattern r g.recentCalls} g.countPingPongRepeats ∧
        3 ≤ g.countPingPongRepeats) ∧
    (g.config.pingPongMinRepeats ≤ 3 →
      (g.GetsPast H toolName params → ∀ text,
        (g.counted H toolName params).detectPingPong = some text →
          g.check H toolName params = ((g.counted H toolName params).countBlocked, .block text)) ∧
      ∀ text, (g.check H toolName params).2 = .warn text → text = warningText toolName
        ((g.counted H toolName params).callCounts (H.computeHash toolName params))) := by
  refine ⟨detectPingPong_isSome, fun pattern => countPingPongRepeats_spec, fun hmin => ⟨?_, ?_⟩⟩
  · intro hpast text hdetected
    rw [check_of_getsPast hpast]
    exact checkPingPong_of_detected hmin hdetected
  · exact fun text => check_warn hmin

end Verdicts

section Example

/-- Calls are told apart by the names of their tools. -/
def named : Hashing Str := ⟨fun toolName _ => toolName, fun toolName _ _ => toolName, id⟩

def alternating : LoopGuard Str :=
  (Clawreform.Lib.Run.run (step named) (LoopGuard.new .default)
    [.check ['a'] .null, .check ['b'] .null, .check ['a'] .null, .check ['b'] .null,
      .check ['a'] .null]).1

/-- With the default thresholds, two calls that alternate are only warned about when the
ping-pong is there to be found: the count of the call comes first. -/
theorem alternating_warned :
    (alternating.check named ['b'] .null).1.detectPingPong.isSome ∧
      (alternating.check named ['b'] .null).1.config.pingPongMinRepeats ≤ 3 ∧
      (alternating.check named ['b'] .null).2 = .warn (warningText ['b'] 3) := by
  refine ⟨?_, ?_, ?_⟩
  · rw [detectPingPong_isSome]
    decide
  · decide
  · rfl

end Example

end Clawreform.Runtime.LoopGuard
