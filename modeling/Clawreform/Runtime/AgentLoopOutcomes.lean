import Clawreform.Runtime.AgentLoopCalls

namespace Clawreform.Runtime

open Clawreform.Lib Clawreform.Lib.Text Clawreform.Lib.Trace Clawreform.Lib.Run
open Clawreform.Lib.Json (Value)
open Clawreform.Types

variable {κ : Type} [DecidableEq κ]

section Guard

variable (H : Hashing κ) (config : LoopGuardConfig)

def timesAsked (calls : List ToolCall) (call : ToolCall) : Nat :=
  calls.countP (fun c => c.name = call.name ∧ c.input = call.input)

/-- How often a call can be asked for before the guard no longer lets it pass. -/
def patience (call : ToolCall) : Nat :=
  min ((H.effectiveBlock config call.name call.input).toNat - 1)
    ((H.effectiveWarn config call.name call.input).toNat - 1 + config.maxWarningsPerCall.toNat)

/-- Without outcomes nothing is blocked for them, and until the circuit breaks
every check of a call counts for it, at last as a warning. -/
structure Pressed (g : LoopGuard κ) (calls : List ToolCall) : Prop where
  opened (h : κ) : g.blockedOutcomes h = false
  counted : calls.length ≤ config.globalCircuitBreaker.toNat → ∀ call,
    timesAsked calls call ≤ (g.callCounts (H.computeHash call.name call.input)).toNat ∧
      ((H.effectiveBlock config call.name call.input).toNat ≤
          (g.callCounts (H.computeHash call.name call.input)).toNat ∨
        timesAsked calls call ≤ (H.effectiveWarn config call.name call.input).toNat - 1 +
          (g.warningsEmitted (.call (H.computeHash call.name call.input))).toNat)

variable {H config}

theorem timesAsked_concat (calls : List ToolCall) (last call : ToolCall) :
    timesAsked (calls ++ [last]) call =
      timesAsked calls call + if last.name = call.name ∧ last.input = call.input then 1 else 0 := by
  simp [timesAsked, List.countP_append, List.countP_cons]

/-- A check that neither the breaker nor an outcome cuts short is counted, and
when it lets the call pass at its warning threshold a warning is, too. -/
theorem turn_presses {g g' : LoopGuard κ} {call : ToolCall} {v : LoopGuardVerdict}
    (hcall : ∀ h, (g.callCounts h).toNat + 1 < 2 ^ 32)
    (hwarning : ∀ h, (g.warningsEmitted (.call h)).toNat + 1 < 2 ^ 32)
    (ht : LoopGuard.Turn H g call.name call.input g' v)
    (hlimit : ¬ g.config.globalCircuitBreaker < g.totalCalls + 1)
    (hopen : g.blockedOutcomes (H.computeHash call.name call.input) = false) :
    let h := H.computeHash call.name call.input
    (g'.callCounts h).toNat = (g.callCounts h).toNat + 1 ∧
      ((H.effectiveBlock g.config call.name call.input).toNat ≤ (g'.callCounts h).toNat ∨
        (g'.warningsEmitted (.call h)).toNat = (g.warningsEmitted (.call h)).toNat + 1 ∨
        (g'.callCounts h).toNat < (H.effectiveWarn g.config call.name call.input).toNat) := by
  intro h
  have hc := LoopGuard.countCall_toNat (hcall h) h
  have hw := LoopGuard.countWarning_toNat (hwarning h) h
  rw [if_pos rfl] at hc hw
  cases ht with
  | circuit _ hbreak => exact absurd hbreak hlimit
  | outcome _ hblocked =>
    rw [hopen] at hblocked
    cases hblocked
  | count _ hcounts _ hblock =>
    exact ⟨by rw [hcounts]; exact hc, Or.inl (UInt32.le_iff_toNat_le.mp hblock)⟩
  | exhausted _ hcounts hwarnings =>
    exact ⟨by rw [hcounts]; exact hc, Or.inr (Or.inl (by rw [hwarnings]; exact hw))⟩
  | warned _ _ _ hcounts hwarnings =>
    exact ⟨by rw [hcounts]; exact hc, Or.inr (Or.inl (by rw [hwarnings]; exact hw))⟩
  | low _ _ _ hcounts _ _ hwarn =>
    exact ⟨by rw [hcounts]; exact hc, Or.inr (Or.inr (UInt32.lt_iff_toNat_lt.mp hwarn))⟩

variable (H config) in
theorem guardOf_pressed (calls : List ToolCall) (hfew : calls.length < 2 ^ 32) :
    Pressed H config (guardOf H config calls) calls := by
  induction calls using List.reverseRecOn with
  | nil => exact ⟨fun _ => rfl, fun _ _ => ⟨Nat.zero_le _, Or.inr (Nat.zero_le _)⟩⟩
  | append_singleton calls last ih =>
    rw [List.length_append, List.length_singleton] at hfew
    have hp := ih (by omega)
    obtain ⟨answers, hlength, hb⟩ := guardOf_bounded H config calls (by omega)
    have ht := LoopGuard.check_turn H (guardOf H config calls) last.name last.input
    obtain ⟨-, -, hblocked⟩ := LoopGuard.check_always H (guardOf H config calls) last.name last.input
    rw [guardOf_concat]
    generalize guardOf H config calls = g at *
    generalize (g.check H last.name last.input).1 = g' at *
    generalize (g.check H last.name last.input).2 = v at *
    obtain ⟨hcall, hwarning⟩ := hb.room (by omega)
    refine ⟨fun h => by rw [hblocked, hp.opened h], fun hlimit call => ?_⟩
    rw [List.length_append, List.length_singleton] at hlimit
    have hclosed : ¬ g.config.globalCircuitBreaker < g.totalCalls + 1 := by
      rw [UInt32.lt_iff_toNat_lt, LoopGuard.toNat_succ (by rw [hb.total]; omega), hb.total,
        hb.config_eq]
      omega
    obtain ⟨hcount, hpress⟩ := turn_presses hcall hwarning ht hclosed (hp.opened _)
    obtain ⟨⟨hgrow, -⟩, hwarnings, -⟩ := LoopGuard.turn_counts hcall hwarning ht
      (H.computeHash call.name call.input)
    obtain ⟨hasked, hpressed⟩ := hp.counted (by omega) call
    rw [timesAsked_concat]
    split <;> rename_i hsame
    · rw [hsame.1, hsame.2, hb.config_eq] at hpress
      rw [hsame.1, hsame.2] at hcount
      omega
    · omega

/-- A guard without outcomes refuses a call that was asked for often enough, and
every call behind the breaker. -/
theorem guardOf_refuses {calls : List ToolCall} {call : ToolCall} (hfew : calls.length + 1 < 2 ^ 32)
    (hpatience : patience H config call ≤ timesAsked calls call ∨
      config.globalCircuitBreaker.toNat ≤ calls.length) :
    (answerOf call ((guardOf H config calls).check H call.name call.input).2).passes = false := by
  have hp := guardOf_pressed H config calls (by omega)
  obtain ⟨answers, hlength, hb⟩ := guardOf_bounded H config calls (by omega)
  have ht := LoopGuard.check_turn H (guardOf H config calls) call.name call.input
  generalize guardOf H config calls = g at *
  generalize (g.check H call.name call.input).1 = g' at *
  generalize (g.check H call.name call.input).2 = v at *
  obtain ⟨hcall, hwarning⟩ := hb.room (by omega)
  by_contra hv
  have hpasses : (answerOf call v).passes = true := Bool.not_eq_false _ ▸ hv
  obtain ⟨-, hcount, hblock, hwarn⟩ := LoopGuard.turn_passes hcall hwarning ht hpasses
  have hbreaks : (answerOf call v).breaks = false := by
    cases v with
    | circuitBreak text => cases hpasses
    | _ => rfl
  have hclosed := UInt32.le_iff_toNat_le.mp (LoopGuard.turn_open ht hbreaks)
  rw [LoopGuard.toNat_succ (by rw [hb.total]; omega), hb.total, hb.config_eq] at hclosed
  obtain ⟨hasked, hpressed⟩ := hp.counted (by omega) call
  rw [hb.config_eq] at hblock hwarn
  unfold patience at hpatience
  omega

end Guard

section Run

variable (a : Args κ)

/-- A call has returned one result as often as it takes to block it. -/
def Repeated (past : List Event) (call : ToolCall) : Prop :=
  ∃ p ∈ executedCalls past, (loopGuardConfig a).outcomeBlockThreshold.toNat ≤
    (executedCalls past).countP (fun q => q.1.name = call.name ∧ q.1.input = call.input ∧
      q.2.content = p.2.content)

instance (past : List Event) (call : ToolCall) : Decidable (Repeated a past call) :=
  inferInstanceAs (Decidable (∃ p ∈ executedCalls past, _ ≤ _))

/-- A call that returned one result often enough is asked for again only when
the guard has had enough of it anyway. -/
def Patient (past : List Event) : Event → Prop
  | .checked call _ => Repeated a past call → (checkedCalls past).length + 1 < 2 ^ 32 ∧
      (patience a.world.hashing (loopGuardConfig a) call ≤ timesAsked (checkedCalls past) call ∨
        (loopGuardConfig a).globalCircuitBreaker.toNat ≤ (checkedCalls past).length)
  | _ => True

instance (past : List Event) (e : Event) : Decidable (Patient a past e) := by
  unfold Patient
  split <;> infer_instance

/-- A call that returned one result often enough is not executed again. What
answers it is an error, and before the next request every call has its answer. -/
def Refused (past : List Event) : Event → Prop
  | .executed call _ => ¬ Repeated a past call
  | .answered result => ∀ before call verdict between,
      past = before ++ .checked call verdict :: between → checkedCalls between = [] →
      Repeated a before call → result.toolUseId = call.id ∧ result.isError = true
  | .request _ => answeredIds past = (askedCalls past).map ToolCall.id
  | _ => True

omit [DecidableEq κ] in
/-- The last check of a log is found in one place only. -/
theorem lastCheck_unique {before between before' between' : List Event} {call call' : ToolCall}
    {verdict verdict' : LoopGuardVerdict}
    (h : before ++ .checked call verdict :: between = before' ++ .checked call' verdict' :: between')
    (hb : checkedCalls between = []) (hb' : checkedCalls between' = []) :
    before = before' ∧ call = call' ∧ verdict = verdict' := by
  have hnone : ∀ {xs ys : List Event} {c v}, checkedCalls (xs ++ .checked c v :: ys) ≠ [] := by
    intro xs ys c v hnil
    rw [checkedCalls_append] at hnil
    cases (List.append_eq_nil_iff.mp hnil).2
  rcases List.append_eq_append_iff.mp h with ⟨mid, hmid, hrest⟩ | ⟨mid, hmid, hrest⟩
  · cases mid with
    | nil =>
      rw [List.append_nil] at hmid
      rw [List.nil_append, List.cons.injEq, Event.checked.injEq] at hrest
      exact ⟨hmid.symm, hrest.1⟩
    | cons e mid =>
      rw [List.cons_append, List.cons.injEq] at hrest
      exact absurd (hrest.2 ▸ hb) hnone
  · cases mid with
    | nil =>
      rw [List.append_nil] at hmid
      rw [List.nil_append, List.cons.injEq, Event.checked.injEq] at hrest
      exact ⟨hmid, hrest.1.1.symm, hrest.1.2.symm⟩
    | cons e mid =>
      rw [List.cons_append, List.cons.injEq] at hrest
      exact absurd (hrest.2 ▸ hb') hnone

theorem refused_of_disciplined {log : List Event} (hd : Always (Disciplined a) log)
    (hp : Always (Patient a) log) : Always (Refused a) log := by
  have hrefuses : ∀ before call verdict rest, log = before ++ .checked call verdict :: rest →
      Repeated a before call → (answerOf call verdict).passes = false := by
    intro before call verdict rest he hr
    obtain ⟨-, -, rfl⟩ := hd before _ rest he
    obtain ⟨hfew, hpatience⟩ := hp before _ rest he hr
    exact guardOf_refuses hfew hpatience
  intro past e rest he
  cases e with
  | executed call result =>
    intro hr
    obtain ⟨before, verdict, between, rfl, hpasses, -, -, hran⟩ := hd past _ rest he
    have hbefore : Repeated a before call := by
      have hcalls : executedCalls (before ++ .checked call verdict :: between) =
          executedCalls before := by
        rw [executedCalls_append, show executedCalls (.checked call verdict :: between) =
          executedCalls between from rfl, hran, List.append_nil]
      rwa [Repeated, hcalls] at hr
    rw [List.append_assoc, List.cons_append] at he
    rw [hrefuses before call verdict _ he hbefore] at hpasses
    cases hpasses
  | answered result =>
    intro before call verdict between hpast hnone hr
    obtain ⟨before', call', verdict', between', hpast', hnone', -, hid, herror⟩ := hd past _ rest he
    obtain ⟨rfl, rfl, rfl⟩ := lastCheck_unique (hpast.symm.trans hpast') hnone hnone'
    rw [hpast, List.append_assoc, List.cons_append] at he
    exact ⟨hid, herror (hrefuses before call verdict _ he hr)⟩
  | request request => exact (hd past _ rest he).2
  | _ => trivial

omit [DecidableEq κ] in
theorem patience_eq (call : ToolCall) : patience a.world.hashing (loopGuardConfig a) call =
    if a.world.hashing.isPollCall call.name call.input then 11 else 4 := by
  have hconfig : (loopGuardConfig a).blockThreshold = 5 ∧ (loopGuardConfig a).warnThreshold = 3 ∧
      (loopGuardConfig a).pollMultiplier = 3 ∧ (loopGuardConfig a).maxWarningsPerCall = 3 := by
    unfold loopGuardConfig
    dsimp only
    split <;> exact ⟨rfl, rfl, rfl, rfl⟩
  obtain ⟨hblock, hwarn, hpoll, hmax⟩ := hconfig
  unfold patience Hashing.effectiveBlock Hashing.effectiveWarn Hashing.multiplier
  rw [hblock, hwarn, hpoll, hmax]
  split <;> decide

/-- Both loops refuse a call that returned one result often enough, as long as
the guard's count of the calls does it. -/
theorem runAgentLoop_repeats_refused (session : List Message) :
    ∀ log ∈ [(runAgentLoop a session).2.log, (runAgentLoopStreaming a session).2.log],
      Always (Patient a) log → Always (Refused a) log := by
  intro log hlog
  rcases List.mem_pair.mp hlog with rfl | rfl
  · exact refused_of_disciplined a (runAgentLoop_disciplined a session)
  · exact refused_of_disciplined a (runAgentLoopStreaming_disciplined a session)

/-- Four calls that returned a text and three times another are refused the fifth
time. -/
theorem runAgentLoop_repeats_refused_fifth :
    let call id := callResponse ⟨[id], ['t'], .null⟩
    let a := scripted none [call '1', call '2', call '3', call '4', call '5']
      (fun n => if n = 0 then ['x'] else ['r'])
    Always (Refused a) (runAgentLoop a []).2.log ∧
      Always (Refused a) (runAgentLoopStreaming a []).2.log :=
  ⟨runAgentLoop_repeats_refused _ [] _ (List.mem_cons_self ..) (by decide +kernel),
    runAgentLoop_repeats_refused _ [] _ (List.mem_cons_of_mem _ (List.mem_cons_self ..))
      (by decide +kernel)⟩

/-- A call that returned one result three times is executed once more. -/
theorem runAgentLoop_repeats_executed :
    ¬ ∀ (a : Args (Str × Value)) (session : List Message) (past : List Event) (call : ToolCall)
      (result : ToolResult) (rest : List Event),
      (runAgentLoop a session).2.log = past ++ .executed call result :: rest →
      ¬ Repeated a past call := by
  intro h
  let call (id : Char) : ToolCall := ⟨[id], ['t'], .null⟩
  let a := scripted none [callResponse (call '1'), callResponse (call '2'), callResponse (call '3'),
    callResponse (call '4')] (fun _ => ['r'])
  let log := (runAgentLoop a []).2.log
  obtain ⟨hlog, hrepeated⟩ :
      log = log.take 21 ++ .executed (call '4') ⟨['4'], ['r'], false⟩ :: log.drop 22 ∧
        Repeated a (log.take 21) (call '4') := by decide +kernel
  exact h a [] _ _ _ _ hlog hrepeated

end Run

end Clawreform.Runtime
