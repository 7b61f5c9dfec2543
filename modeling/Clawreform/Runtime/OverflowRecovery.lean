import Mathlib.Tactic.Linarith
import Clawreform.Runtime.ContextGuard

namespace Clawreform.Runtime.OverflowRecovery

open Clawreform.Lib Clawreform.Lib.Text Clawreform.Lib.Passes
open Clawreform.Types Clawreform.Runtime.Truncation Clawreform.Runtime.ContextGuard

section Thresholds

variable {w : Nat}

theorem threshold70_le (hw : w < 2 ^ 49) : 10 * threshold70 w ≤ 7 * w := by
  have hsig : literalSignificand 70 100 53 = 6305039478318694 := by decide
  have hle := scaleToUsize_le 6305039478318694 (hw.trans (by decide))
  rw [threshold70, hsig]
  by_contra hover
  norm_num at hle hw hover
  linarith

theorem threshold90_le (hw : w < 2 ^ 49) : 10 * threshold90 w ≤ 9 * w := by
  have hsig : literalSignificand 90 100 53 = 8106479329266893 := by decide
  have hle := scaleToUsize_le 8106479329266893 (hw.trans (by decide))
  rw [threshold90, hsig]
  by_contra hover
  norm_num at hle hw hover
  linarith

theorem le_threshold90 (hw : w < 2 ^ 49) : 9 * w / 10 ≤ threshold90 w := by
  have hsig : literalSignificand 90 100 53 = 8106479329266893 := by decide
  have hten : 10 * (9 * w / 10) ≤ 9 * w := Nat.mul_div_le _ 10
  have hbelow : 9 * w / 10 * 2 ^ 53 ≤ w * 8106479329266893 := by
    norm_num
    linarith
  have hround := le_roundSignificand hbelow (by norm_num at hw ⊢; linarith)
  rw [threshold90, hsig, scaleToUsize, roundSignificand_of_lt (hw.trans (by decide))]
  refine le_min ((Nat.le_div_iff_mul_le (Nat.two_pow_pos 53)).mpr hround) ?_
  norm_num at hw ⊢
  linarith

end Thresholds

section Stages

variable (systemPrompt : Str) (tools : List ToolDefinition) (contextWindow : Nat)

/-- The stage that is reported agrees with the estimate of what is left. -/
def Truthful (messages : List Message) : RecoveryStage → Prop
  | .none => estimateTokens messages systemPrompt tools ≤ threshold70 contextWindow
  | .autoCompaction _ => estimateTokens messages systemPrompt tools ≤ threshold70 contextWindow
  | .overflowCompaction _ => estimateTokens messages systemPrompt tools ≤ threshold90 contextWindow
  | .toolResultTruncation _ =>
    estimateTokens messages systemPrompt tools ≤ threshold90 contextWindow
  | .finalError => threshold90 contextWindow < estimateTokens messages systemPrompt tools

/-- The same in percent of the window. -/
def TruthfulPercent (messages : List Message) : RecoveryStage → Prop
  | .none => 10 * estimateTokens messages systemPrompt tools ≤ 7 * contextWindow
  | .autoCompaction _ => 10 * estimateTokens messages systemPrompt tools ≤ 7 * contextWindow
  | .overflowCompaction _ => 10 * estimateTokens messages systemPrompt tools ≤ 9 * contextWindow
  | .toolResultTruncation _ =>
    10 * estimateTokens messages systemPrompt tools ≤ 9 * contextWindow
  | .finalError => 9 * contextWindow < 10 * estimateTokens messages systemPrompt tools

/-- What passes between the stages: an estimate over the first threshold and within the
second one, too few messages to drop and no long result. -/
def Stuck (messages : List Message) : Prop :=
  threshold70 contextWindow < estimateTokens messages systemPrompt tools ∧
    estimateTokens messages systemPrompt tools ≤ threshold90 contextWindow ∧
    messages.length ≤ 4 ∧ ∀ len ∈ resultLengths messages, len ≤ 2000

variable {systemPrompt tools contextWindow} {messages messages' : List Message}
  {stage : RecoveryStage} {contents outs : List Str} {m n : Nat}

/-- The products of the code are exact enough for every window below `2 ^ 49`. -/
theorem Truthful.percent (hw : contextWindow < 2 ^ 49)
    (h : Truthful systemPrompt tools contextWindow messages stage) :
    TruthfulPercent systemPrompt tools contextWindow messages stage := by
  have hseventy := threshold70_le hw
  have hninety := threshold90_le hw
  have hbelow := le_threshold90 hw
  cases stage with
  | none | autoCompaction removed => exact (Nat.mul_le_mul_left 10 h).trans hseventy
  | overflowCompaction removed | toolResultTruncation truncated =>
    exact (Nat.mul_le_mul_left 10 h).trans hninety
  | finalError =>
    have hover : 9 * contextWindow / 10 < estimateTokens messages systemPrompt tools :=
      hbelow.trans_lt h
    have hten := Nat.lt_mul_of_div_lt hover (by decide)
    rwa [Nat.mul_comm, Nat.mul_comm _ 10, Nat.mul_comm contextWindow] at hten

theorem truncateHistorical_count {content out : Str}
    (h : truncateHistorical n content = some (out, m)) :
    n ≤ m ∧ (2000 < byteLen content → n < m) := by
  by_cases hshort : byteLen content ≤ 2000
  · have hself : truncateHistorical n content = some (content, n) := if_pos hshort
    obtain ⟨-, rfl⟩ := Prod.mk.inj (Option.some.inj (hself.symm.trans h))
    exact ⟨le_rfl, fun hlong => absurd hshort (Nat.not_le.mpr hlong)⟩
  · obtain ⟨-, hnone⟩ | ⟨-, out', hout, -⟩ := truncateHistorical_cases n (Nat.not_le.mp hshort)
    · rw [hnone] at h
      cases h
    · obtain ⟨-, rfl⟩ := Prod.mk.inj (Option.some.inj (hout.symm.trans h))
      exact ⟨Nat.le_succ n, fun _ => Nat.lt_succ_self n⟩

/-- The count of the truncated results grows exactly when there was a long one. -/
theorem pass_truncateHistorical_count (h : pass truncateHistorical n contents = some (outs, m)) :
    n ≤ m ∧ (n = m → ∀ content ∈ contents, byteLen content ≤ 2000) := by
  induction contents generalizing n outs with
  | nil =>
    obtain ⟨-, rfl⟩ := Prod.mk.inj (Option.some.inj h)
    exact ⟨le_rfl, fun _ => List.forall_mem_nil _⟩
  | cons content contents ih =>
    rw [pass_cons] at h
    obtain ⟨⟨out, k⟩, hhead, hrest⟩ := Option.bind_eq_some_iff.mp h
    obtain ⟨⟨outs', m'⟩, houts, he⟩ := Option.map_eq_some_iff.mp hrest
    obtain ⟨-, rfl⟩ := Prod.mk.inj he
    obtain ⟨hle, hall⟩ := ih houts
    obtain ⟨hle', hlong⟩ := truncateHistorical_count hhead
    refine ⟨hle'.trans hle, fun he => List.forall_mem_cons.mpr ⟨?_, hall (by omega)⟩⟩
    by_contra hover
    have := hlong (Nat.not_le.mp hover)
    omega

theorem truncateResults_eq (messages : List Message) :
    truncateResults systemPrompt tools contextWindow messages =
      (editMessages truncateHistorical 0 messages).map fun p =>
        if 0 < p.2 ∧ estimateTokens p.1 systemPrompt tools ≤ threshold90 contextWindow then
          (p.1, .toolResultTruncation p.2)
        else (p.1, .finalError) := by
  rw [truncateResults]
  cases editMessages truncateHistorical 0 messages with
  | none => rfl
  | some p =>
    obtain ⟨messages', truncated⟩ := p
    rw [Option.map_some, apply_ite some]
    rfl

/-- The last two stages report the truth, or leave a history without long results that is
within the threshold. -/
theorem truncateResults_cases
    (h : truncateResults systemPrompt tools contextWindow messages = some (messages', stage)) :
    Truthful systemPrompt tools contextWindow messages' stage ∨
      ((∀ len ∈ resultLengths messages, len ≤ 2000) ∧
        estimateTokens messages systemPrompt tools ≤ threshold90 contextWindow) := by
  rw [truncateResults_eq] at h
  obtain ⟨⟨edited, truncated⟩, hedit, he⟩ := Option.map_eq_some_iff.mp h
  split at he
  case isTrue hwithin =>
    obtain ⟨rfl, rfl⟩ := Prod.mk.inj he
    exact .inl hwithin.2
  case isFalse hover =>
    obtain ⟨rfl, rfl⟩ := Prod.mk.inj he
    by_cases hwithin : estimateTokens edited systemPrompt tools ≤ threshold90 contextWindow
    · have htexts := editMessages_texts (f := truncateHistorical) 0 messages
      rw [hedit, Option.map_some] at htexts
      have hnone : 0 = truncated := by
        by_contra hsome
        exact hover ⟨Nat.pos_of_ne_zero (Ne.symm hsome), hwithin⟩
      have hshort := (pass_truncateHistorical_count htexts.symm).2 hnone
      have hself : editMessages truncateHistorical 0 messages = some (messages, 0) :=
        editMessages_self fun content hcontent => if_pos (hshort content hcontent)
      obtain ⟨rfl, -⟩ := Prod.mk.inj (Option.some.inj (hself.symm.trans hedit))
      refine .inr ⟨?_, hwithin⟩
      rwa [resultLengths_eq, List.forall_mem_map]
    · exact .inl (Nat.not_le.mp hwithin)

theorem compactOverflow_cases
    (h : compactOverflow systemPrompt tools contextWindow messages = some (messages', stage)) :
    Truthful systemPrompt tools contextWindow messages' stage ∨
      (messages.length ≤ 4 ∧ (∀ len ∈ resultLengths messages, len ≤ 2000) ∧
        estimateTokens messages systemPrompt tools ≤ threshold90 contextWindow) := by
  rw [compactOverflow] at h
  dsimp only at h
  split at h
  case isTrue hfew =>
    exact (truncateResults_cases h).imp_right fun hrest => ⟨by omega, hrest⟩
  case isFalse hmany =>
    split at h
    case isTrue hwithin =>
      obtain ⟨rfl, rfl⟩ := Prod.mk.inj (Option.some.inj h)
      exact .inl hwithin
    case isFalse hover =>
      exact .inl ((truncateResults_cases h).resolve_right fun hrest => hover hrest.2)

/-- Each stage reports the truth, but for a history that gets stuck. -/
theorem recoverFromOverflow_truthful (hfree : ¬ Stuck systemPrompt tools contextWindow messages)
    (h : recoverFromOverflow systemPrompt tools contextWindow messages = some (messages', stage)) :
    Truthful systemPrompt tools contextWindow messages' stage := by
  rw [recoverFromOverflow] at h
  dsimp only at h
  split at h
  case isTrue hwithin =>
    obtain ⟨rfl, rfl⟩ := Prod.mk.inj (Option.some.inj h)
    exact hwithin
  case isFalse hover =>
    split at h
    case isTrue hmany =>
      split at h
      case isTrue hwithin =>
        obtain ⟨rfl, rfl⟩ := Prod.mk.inj (Option.some.inj h)
        exact hwithin
      case isFalse =>
        refine (compactOverflow_cases h).resolve_right fun hrest => ?_
        rw [List.length_drop] at hrest
        omega
    case isFalse =>
      refine (compactOverflow_cases h).resolve_right fun hrest => hfree ?_
      exact ⟨Nat.not_le.mp hover, hrest.2.2, hrest.1, hrest.2.1⟩

/-- A history that gets stuck is reported to be over the threshold that it is within. -/
theorem recoverFromOverflow_stuck (h : Stuck systemPrompt tools contextWindow messages) :
    recoverFromOverflow systemPrompt tools contextWindow messages =
      some (messages, .finalError) := by
  obtain ⟨hover, hwithin, hfew, hshort⟩ := h
  rw [resultLengths_eq, List.forall_mem_map] at hshort
  have hself : editMessages truncateHistorical 0 messages = some (messages, 0) :=
    editMessages_self fun content hcontent => if_pos (hshort content hcontent)
  have hten : messages.length - 10 = 0 := by omega
  have hfour : messages.length - 4 = 0 := by omega
  have hstage : ¬ (estimateTokens messages systemPrompt tools ≤ threshold90 contextWindow ∧
      0 < messages.length - 10) := fun hboth => absurd hboth.2 (by omega)
  rw [recoverFromOverflow]
  dsimp only
  rw [if_neg (Nat.not_le.mpr hover), if_neg hstage, compactOverflow]
  dsimp only
  rw [if_pos hfour, truncateResults_eq, hself]
  rfl

/-- The pipeline reports the truth of every history exactly when it does not get stuck. -/
theorem recoverFromOverflow_truthful_iff (systemPrompt : Str) (tools : List ToolDefinition)
    (contextWindow : Nat) (messages : List Message) :
    (∀ messages' stage,
      recoverFromOverflow systemPrompt tools contextWindow messages = some (messages', stage) →
        Truthful systemPrompt tools contextWindow messages' stage) ↔
      ¬ Stuck systemPrompt tools contextWindow messages := by
  constructor
  · intro h hstuck
    have hover := h messages .finalError (recoverFromOverflow_stuck hstuck)
    exact absurd hstuck.2.1 (Nat.not_le.mpr hover)
  · exact fun hfree messages' stage h => recoverFromOverflow_truthful hfree h

/-- One message of 3000 bytes in a window of 1000 tokens. -/
theorem recoverFromOverflow_untrue :
    ¬ ∀ (systemPrompt : Str) (tools : List ToolDefinition) (contextWindow : Nat)
      (messages messages' : List Message) (stage : RecoveryStage),
      recoverFromOverflow systemPrompt tools contextWindow messages = some (messages', stage) →
        Truthful systemPrompt tools contextWindow messages' stage := by
  intro h
  have hstuck : Stuck [] [] 1000 [Message.user (List.replicate 3000 'x')] := by
    refine ⟨by decide +kernel, by decide +kernel, by decide, ?_⟩
    exact List.forall_mem_nil _
  have hover := h [] [] 1000 _ _ _ (recoverFromOverflow_stuck hstuck)
  exact absurd hstuck.2.1 (Nat.not_le.mpr hover)

end Stages

end Clawreform.Runtime.OverflowRecovery
