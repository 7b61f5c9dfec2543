import Mathlib.Data.List.DropRight
import Clawreform.Runtime.Compactor

namespace Clawreform.Runtime.CompactionStages

open Clawreform.Lib Clawreform.Lib.Text Clawreform.Lib.Slices Clawreform.Lib.Lowercase
open Clawreform.Types Clawreform.Memory Clawreform.Runtime.Compactor
open Clawreform.Runtime.InjectionMarkers (dottedTables)

variable {u : Unicode} {config : CompactionConfig} {outcomes : Outcomes} {model : Str}
  {start left k : Nat} {text : Str}

section Attempts

/-- The driver answers with a text that is not empty. -/
def Usable (o : Except LlmError CompletionResponse) : Prop := ∃ r, o = .ok r ∧ r.text ≠ []

/-- The first usable answer from a call on, and its text. -/
structure FirstUsable (outcomes : Outcomes) (start k : Nat) (text : Str) : Prop where
  answer : ∃ r, outcomes (start + k) = .ok r ∧ r.text = text
  usable : text ≠ []
  earlier : ∀ j < k, ¬ Usable (outcomes (start + j))

theorem FirstUsable.here {r : CompletionResponse} (h : outcomes start = .ok r) (hr : r.text ≠ []) :
    FirstUsable outcomes start 0 r.text :=
  ⟨⟨r, h, rfl⟩, hr, fun j hj => absurd hj (Nat.not_lt_zero j)⟩

theorem FirstUsable.succ (hstart : ¬ Usable (outcomes start))
    (h : FirstUsable outcomes (start + 1) k text) : FirstUsable outcomes start (k + 1) text := by
  obtain ⟨⟨r, hr, htext⟩, husable, hearlier⟩ := h
  refine ⟨⟨r, by rw [← hr, Nat.add_right_comm]; rfl, htext⟩, husable, fun j hj => ?_⟩
  cases j with
  | zero => exact hstart
  | succ j =>
    rw [Nat.add_comm j, ← Nat.add_assoc]
    exact hearlier j (Nat.lt_of_succ_lt_succ hj)

theorem FirstUsable.exists (h : FirstUsable outcomes start k text) :
    Usable (outcomes (start + k)) := by
  obtain ⟨r, hr, rfl⟩ := h.answer
  exact ⟨r, hr, h.usable⟩

theorem unusable_succ (hstart : ¬ Usable (outcomes start))
    (h : ∀ j < left, ¬ Usable (outcomes (start + 1 + j))) :
    ∀ j < left + 1, ¬ Usable (outcomes (start + j)) := by
  intro j hj
  cases j with
  | zero => exact hstart
  | succ j =>
    rw [Nat.add_comm j, ← Nat.add_assoc]
    exact h j (Nat.lt_of_succ_lt_succ hj)

/-- The attempts end with the first usable answer, or all are made in vain. -/
theorem attempts_cases (outcomes : Outcomes) (req : CompletionRequest) (left : Nat)
    (lastError : Str) (made : List CompletionRequest) :
    (∃ k text made', k < left ∧ FirstUsable outcomes made.length k text ∧
        attempts outcomes req left lastError made = (.ok text, made') ∧
        made'.length = made.length + (k + 1)) ∨
      ((∀ j < left, ¬ Usable (outcomes (made.length + j))) ∧ ∃ e made',
        attempts outcomes req left lastError made = (.error e, made') ∧
        made'.length = made.length + left) := by
  induction left generalizing lastError made with
  | zero => exact .inr ⟨fun j hj => absurd hj (Nat.not_lt_zero j), lastError, made, rfl, rfl⟩
  | succ left ih =>
    have hnext : (made ++ [req]).length = made.length + 1 := List.length_append
    have hvain : ∀ lastError', ¬ Usable (outcomes made.length) →
        attempts outcomes req (left + 1) lastError made =
          attempts outcomes req left lastError' (made ++ [req]) →
        (∃ k text made', k < left + 1 ∧ FirstUsable outcomes made.length k text ∧
            attempts outcomes req (left + 1) lastError made = (.ok text, made') ∧
            made'.length = made.length + (k + 1)) ∨
          ((∀ j < left + 1, ¬ Usable (outcomes (made.length + j))) ∧ ∃ e made',
            attempts outcomes req (left + 1) lastError made = (.error e, made') ∧
            made'.length = made.length + (left + 1)) := by
      intro lastError' hhere hstep
      rw [hstep]
      obtain ⟨k, text, made', hk, hfirst, hrun, hlen⟩ | ⟨hall, e, made', hrun, hlen⟩ :=
        ih lastError' (made ++ [req])
      · rw [hnext] at hfirst hlen
        exact .inl ⟨k + 1, text, made', Nat.succ_lt_succ hk, hfirst.succ hhere, hrun, by omega⟩
      · rw [hnext] at hall hlen
        exact .inr ⟨unusable_succ hhere hall, e, made', hrun, by omega⟩
    cases hout : outcomes made.length with
    | ok r =>
      by_cases hr : r.text = []
      · refine hvain "LLM returned empty summary".toList ?_ ?_
        · rintro ⟨r', hr', htext⟩
          obtain rfl := Except.ok.inj (hout.symm.trans hr')
          exact htext hr
        · rw [attempts, hout]
          exact if_pos hr
      · refine .inl ⟨0, r.text, made ++ [req], Nat.succ_pos left, .here hout hr, ?_, hnext⟩
        rw [attempts, hout]
        exact if_neg hr
    | error e =>
      refine hvain ("LLM summarization failed: ".toList ++ e.toText) ?_ ?_
      · rintro ⟨r, hr, -⟩
        rw [hout] at hr
        cases hr
      · rw [attempts, hout]

end Attempts

section Passes

/-- The conversation text of some messages can be built, and its end taken. -/
def Summarizable (u : Unicode) (config : CompactionConfig) (messages : List Message) : Prop :=
  ∃ text, buildConversationText u config messages = .ok text ∧
    (effectiveMax config < byteLen text →
      (splitBytes (byteLen text - effectiveMax config) text).isSome)

theorem tailText_cases (config : CompactionConfig) (text : Str) :
    ((effectiveMax config < byteLen text →
        (splitBytes (byteLen text - effectiveMax config) text).isSome) ∧
      ∃ tail, tailText config text = .ok tail) ∨
    (¬ (effectiveMax config < byteLen text →
        (splitBytes (byteLen text - effectiveMax config) text).isSome) ∧
      tailText config text = .error .sliced) := by
  rw [tailText]
  by_cases hlong : effectiveMax config < byteLen text
  · rw [if_pos hlong]
    cases hsplit : splitBytes (byteLen text - effectiveMax config) text with
    | some p => exact .inl ⟨fun _ => rfl, p.2, rfl⟩
    | none => exact .inr ⟨fun h => Bool.false_ne_true (h hlong), rfl⟩
  · rw [if_neg hlong]
    exact .inl ⟨fun h => absurd h hlong, text, rfl⟩

theorem summarizeMessages_cases (outcomes : Outcomes) (model : Str) (messages : List Message)
    (made : List CompletionRequest) :
    (Summarizable u config messages ∧ ∃ req,
        summarizeMessages u config outcomes model messages made =
          .ok (attempts outcomes req config.maxRetries.toNat [] made)) ∨
      (¬ Summarizable u config messages ∧ ∃ fault,
        summarizeMessages u config outcomes model messages made = .error fault) := by
  rw [summarizeMessages]
  cases htext : buildConversationText u config messages with
  | error fault =>
    refine .inr ⟨?_, fault, rfl⟩
    rintro ⟨text, hok, -⟩
    rw [htext] at hok
    cases hok
  | ok text =>
    obtain ⟨hfits, tail, htail⟩ | ⟨hcut, htail⟩ := tailText_cases config text
    · refine .inl ⟨⟨text, htext, hfits⟩, summarizeRequest config model tail, ?_⟩
      show (do let text ← tailText config text; _) = _
      rw [htail]
      rfl
    · refine .inr ⟨?_, .sliced, ?_⟩
      · rintro ⟨text', hok, hfits⟩
        obtain rfl := Except.ok.inj (htext.symm.trans hok)
        exact hcut hfits
      · show (do let text ← tailText config text; _) = _
        rw [htail]
        rfl

end Passes

section Chunks

variable {α : Type} {size n : Nat}

/-- Every message of the list is in one of the pieces, in order. -/
theorem flatten_chunksFrom (hsize : 0 < size) (xs : List α) (h : xs.length ≤ n) :
    (chunksFrom size n xs).flatten = xs := by
  induction n generalizing xs with
  | zero => exact (List.length_eq_zero_iff.mp (Nat.le_zero.mp h)).symm
  | succ n ih =>
    cases xs with
    | nil => rfl
    | cons x xs =>
      have hdrop : ((x :: xs).drop size).length ≤ n := by
        rw [List.length_drop, List.length_cons] at *
        omega
      rw [chunksFrom, List.flatten_cons, ih _ hdrop, List.take_append_drop]

theorem length_chunksFrom (size n : Nat) (xs : List α) :
    (chunksFrom size n xs).length * size < xs.length + size ∨ size = 0 := by
  obtain rfl | hsize := Nat.eq_zero_or_pos size
  · exact .inr rfl
  · left
    induction n generalizing xs with
    | zero =>
      rw [chunksFrom, List.length_nil, Nat.zero_mul]
      omega
    | succ n ih =>
      cases xs with
      | nil =>
        rw [chunksFrom, List.length_nil, Nat.zero_mul]
        omega
      | cons x xs =>
        have hrest := ih ((x :: xs).drop size)
        rw [chunksFrom, List.length_cons, Nat.succ_mul]
        rw [List.length_drop] at hrest
        by_cases hlong : size ≤ (x :: xs).length
        · omega
        · have hnone : (chunksFrom size n ((x :: xs).drop size)).length = 0 := by
            rw [List.drop_eq_nil_iff.mpr (by omega)]
            cases n <;> rfl
          rw [hnone, Nat.zero_mul, List.length_cons]
          omega

/-- The pieces of a size of at least five are a fifth of the messages, rounded up. -/
theorem length_chunks_le (hsize : 5 ≤ size) (xs : List α) :
    (chunks size xs).length ≤ (xs.length + 4) / 5 := by
  obtain h | h := length_chunksFrom size xs.length xs
  · rw [Nat.le_div_iff_mul_le (by decide)]
    have hlen : (chunks size xs).length * size < xs.length + size := h
    cases hm : (chunks size xs).length with
    | zero => exact Nat.zero_le _
    | succ m =>
      rw [hm, Nat.succ_mul] at hlen
      have := Nat.mul_le_mul_left m hsize
      omega
  · omega

/-- How the chunks went: all calls in vain, or a usable answer among those made. -/
inductive ChunksEnd (config : CompactionConfig) (outcomes : Outcomes) (count : Nat)
    (before after : ChunkRun) : Prop
  | vain (h : ∀ j < config.maxRetries.toNat * count, ¬ Usable (outcomes (before.made.length + j)))
      (hsuccess : after.successCount = before.successCount)
      (hmade : after.made.length = before.made.length + config.maxRetries.toNat * count)
  | reached {j : Nat} (hj : before.made.length + j < after.made.length)
      (husable : Usable (outcomes (before.made.length + j)))
      (hsuccess : before.successCount < after.successCount)
      (hmade : after.made.length ≤ before.made.length + config.maxRetries.toNat * count)

variable {count : Nat} {before middle after : ChunkRun}

/-- The first chunk was summarized. -/
theorem ChunksEnd.of_success (h : ChunksEnd config outcomes count middle after)
    (hk : k < config.maxRetries.toNat) (husable : Usable (outcomes (before.made.length + k)))
    (hmade : middle.made.length = before.made.length + (k + 1))
    (hsuccess : middle.successCount = before.successCount + 1) :
    ChunksEnd config outcomes (count + 1) before after := by
  have hmul : config.maxRetries.toNat * (count + 1) =
      config.maxRetries.toNat * count + config.maxRetries.toNat := Nat.mul_succ _ _
  cases h with
  | vain h hsuccess' hmade' => exact .reached (j := k) (by omega) husable (by omega) (by omega)
  | reached hj _ hsuccess' hmade' =>
    exact .reached (j := k) (by omega) husable (by omega) (by omega)

/-- All attempts at the first chunk were made in vain. -/
theorem ChunksEnd.of_failure (h : ChunksEnd config outcomes count middle after)
    (hvain : ∀ j < config.maxRetries.toNat, ¬ Usable (outcomes (before.made.length + j)))
    (hmade : middle.made.length = before.made.length + config.maxRetries.toNat)
    (hsuccess : middle.successCount = before.successCount) :
    ChunksEnd config outcomes (count + 1) before after := by
  have hmul : config.maxRetries.toNat * (count + 1) =
      config.maxRetries.toNat * count + config.maxRetries.toNat := Nat.mul_succ _ _
  cases h with
  | vain h hsuccess' hmade' =>
    refine .vain (fun j hj => ?_) (by omega) (by omega)
    by_cases hfirst : j < config.maxRetries.toNat
    · exact hvain j hfirst
    · have hrest := h (j - config.maxRetries.toNat) (by omega)
      rwa [hmade, Nat.add_assoc, Nat.add_sub_cancel' (Nat.not_lt.mp hfirst)] at hrest
  | @reached j hj husable hsuccess' hmade' =>
    rw [hmade, Nat.add_assoc] at hj husable
    exact .reached hj husable (by omega) (by omega)

theorem summarizeChunks_cases (outcomes : Outcomes) (model : Str) (i : Nat)
    (cs : List (List Message)) (run : ChunkRun) :
    ((∀ chunk ∈ cs, Summarizable u config chunk) ∧ ∃ run',
        summarizeChunks u config outcomes model i cs run = .ok run' ∧
        run'.summaries.length = run.summaries.length + cs.length ∧
        ChunksEnd config outcomes cs.length run run') ∨
      (¬ (∀ chunk ∈ cs, Summarizable u config chunk) ∧ ∃ fault,
        summarizeChunks u config outcomes model i cs run = .error fault) := by
  induction cs generalizing i run with
  | nil =>
    refine .inl ⟨List.forall_mem_nil _, run, rfl, rfl, .vain (fun j hj => ?_) rfl rfl⟩
    exact absurd hj (Nat.not_lt_zero j)
  | cons chunk cs ih =>
    rw [List.forall_mem_cons]
    obtain ⟨hsum, req, hreq⟩ | ⟨hsum, fault, hfault⟩ :=
      summarizeMessages_cases (u := u) outcomes model chunk run.made
    · obtain ⟨next, hnext, hlen, hend⟩ : ∃ next : ChunkRun,
          summarizeChunks u config outcomes model i (chunk :: cs) run =
            summarizeChunks u config outcomes model (i + 1) cs next ∧
          next.summaries.length = run.summaries.length + 1 ∧
          ∀ after, ChunksEnd config outcomes cs.length next after →
            ChunksEnd config outcomes (cs.length + 1) run after := by
        obtain ⟨k, text, made', hk, hfirst, hrun, hmade⟩ | ⟨hvain, e, made', hrun, hmade⟩ :=
          attempts_cases outcomes req config.maxRetries.toNat [] run.made
        · refine ⟨⟨run.summaries ++ [text], run.successCount + 1, run.lastChunkError, made'⟩, ?_,
            List.length_append, fun after h => h.of_success hk hfirst.exists hmade rfl⟩
          rw [summarizeChunks, hreq, hrun]
          rfl
        · refine ⟨⟨run.summaries ++ [unavailable i chunk.length], run.successCount, e, made'⟩, ?_,
            List.length_append, fun after h => h.of_failure hvain hmade rfl⟩
          rw [summarizeChunks, hreq, hrun]
          rfl
      rw [hnext]
      obtain ⟨hall, run', hrun', hlen', hend'⟩ | ⟨hnot, fault, hfault⟩ := ih (i + 1) next
      · refine .inl ⟨⟨hsum, hall⟩, run', hrun', ?_, hend run' hend'⟩
        rw [hlen', hlen, List.length_cons]
        omega
      · exact .inr ⟨fun h => hnot h.2, fault, hfault⟩
    · refine .inr ⟨fun h => hsum h.1, fault, ?_⟩
      rw [summarizeChunks, hfault]
      rfl

end Chunks

section Stages

variable {messages : List Message} {made : List CompletionRequest}

/-- The bounds of the ratio are the right way round, and each chunk can be summarized. -/
def Chunkable (u : Unicode) (config : CompactionConfig) (messages : List Message) : Prop :=
  ∃ ratio, computeAdaptiveChunkRatio config messages = .ok ratio ∧
    ∀ chunk ∈ chunks (chunkSize messages ratio) messages, Summarizable u config chunk

theorem computeAdaptiveChunkRatio_ok_iff (h : messages ≠ []) :
    (∃ ratio, computeAdaptiveChunkRatio config messages = .ok ratio) ↔
      config.minChunkRatio ≤ config.baseChunkRatio := by
  rw [computeAdaptiveChunkRatio, if_neg h]
  dsimp only
  rw [clamp]
  by_cases hle : config.minChunkRatio ≤ config.baseChunkRatio
  · rw [if_pos hle]
    exact iff_of_true ⟨_, rfl⟩ hle
  · rw [if_neg hle]
    refine iff_of_false ?_ hle
    rintro ⟨ratio, hratio⟩
    cases hratio

theorem mergeSummaries_vain (outcomes : Outcomes) (model : Str) {run : ChunkRun}
    (h : run.successCount = 0) :
    ∃ e, mergeSummaries config outcomes model run = (.error e, run.made) :=
  ⟨_, if_pos h⟩

/-- With a summary the chunks are merged in one more call at most. -/
theorem mergeSummaries_reached (config : CompactionConfig) (outcomes : Outcomes) (model : Str)
    {run : ChunkRun} (h : run.successCount ≠ 0)
    (hsummaries : run.summaries ≠ []) :
    ∃ summary made', mergeSummaries config outcomes model run = (.ok summary, made') ∧
      run.made.length ≤ made'.length ∧ made'.length ≤ run.made.length + 1 := by
  rw [mergeSummaries, if_neg h]
  cases hsum : run.summaries with
  | nil => exact absurd hsum hsummaries
  | cons first rest =>
    cases rest with
    | nil => exact ⟨first, run.made, rfl, le_rfl, Nat.le_succ _⟩
    | cons second rest =>
      have hlen : (run.made ++ [mergeRequest config model (first :: second :: rest)]).length =
          run.made.length + 1 := List.length_append
      dsimp only
      cases outcomes run.made.length with
      | ok response => exact ⟨_, _, rfl, by omega, by omega⟩
      | error e => exact ⟨_, _, rfl, by omega, by omega⟩

/-- The second stage: all its calls in vain, or a summary with a usable answer among them. -/
theorem summarizeInChunks_cases (outcomes : Outcomes) (model : Str) (messages : List Message)
    (made : List CompletionRequest) :
    (Chunkable u config messages ∧ ∃ result made',
        summarizeInChunks u config outcomes model messages made = .ok (result, made') ∧
        made'.length ≤ made.length + config.maxRetries.toNat * ((messages.length + 4) / 5) + 1 ∧
        made.length ≤ made'.length ∧
        ((∃ e, result = .error e ∧ ∀ j, made.length + j < made'.length →
            ¬ Usable (outcomes (made.length + j))) ∨
          (∃ summary j, result = .ok summary ∧ made.length + j < made'.length ∧
            Usable (outcomes (made.length + j))))) ∨
      (¬ Chunkable u config messages ∧ ∃ fault,
        summarizeInChunks u config outcomes model messages made = .error fault) := by
  rw [summarizeInChunks]
  cases hratio : computeAdaptiveChunkRatio config messages with
  | error fault =>
    refine .inr ⟨?_, fault, rfl⟩
    rintro ⟨ratio, hok, -⟩
    rw [hratio] at hok
    cases hok
  | ok ratio =>
    have hfive : 5 ≤ chunkSize messages ratio := Nat.le_max_right _ 5
    have hcalls := Nat.mul_le_mul_left config.maxRetries.toNat (length_chunks_le hfive messages)
    obtain ⟨hall, run, hrun, hlen, hend⟩ | ⟨hnot, fault, hfault⟩ :=
      summarizeChunks_cases (u := u) outcomes model 0
        (chunks (chunkSize messages ratio) messages) ⟨[], 0, [], made⟩
    · have hmerge : (do
          let ratio ← (.ok ratio : Except Fault Float)
          let run ← summarizeChunks u config outcomes model 0
            (chunks (chunkSize messages ratio) messages) ⟨[], 0, [], made⟩
          return mergeSummaries config outcomes model run) =
            Except.ok (mergeSummaries config outcomes model run) := by
        show (do let run ← summarizeChunks u config outcomes model 0 _ _; _) = _
        rw [hrun]
        rfl
      rw [hmerge]
      refine .inl ⟨⟨ratio, hratio, hall⟩, ?_⟩
      cases hend with
      | vain hvain hsuccess hmade =>
        obtain ⟨e, he⟩ := mergeSummaries_vain outcomes model hsuccess
        refine ⟨.error e, run.made, congrArg _ he, ?_, ?_, .inl ⟨e, rfl, fun j hj => hvain j ?_⟩⟩
        all_goals
          dsimp only at hmade
          omega
      | @reached j hj husable hsuccess hmade =>
        have hsummaries : run.summaries ≠ [] := by
          rintro hnil
          rw [hnil] at hlen
          have hzero : (chunks (chunkSize messages ratio) messages).length = 0 := by
            simpa using hlen.symm
          rw [hzero, Nat.mul_zero] at hmade
          omega
        obtain ⟨summary, made', hsummary, hle, hle'⟩ :=
          mergeSummaries_reached config outcomes model (Nat.ne_of_gt hsuccess) hsummaries
        dsimp only at hj hmade
        refine ⟨.ok summary, made', congrArg _ hsummary, by omega, by omega,
          .inr ⟨summary, j, rfl, by omega, husable⟩⟩
    · refine .inr ⟨?_, fault, ?_⟩
      · rintro ⟨ratio', hok, hall⟩
        obtain rfl := Except.ok.inj (hratio.symm.trans hok)
        exact hnot hall
      · show (do let run ← summarizeChunks u config outcomes model 0 _ _; _) = _
        rw [hfault]
        rfl

/-- Which stage a result comes from. -/
inductive Stage (config : CompactionConfig) (outcomes : Outcomes) (older kept : Nat)
    (result : CompactionResult) (calls : Nat) : Prop
  | single {k : Nat} (hk : k < config.maxRetries.toNat)
      (first : FirstUsable outcomes 0 k result.summary) (used : result.chunksUsed = 1)
      (fallback : result.usedFallback = false) (hcalls : calls = k + 1)
  | chunked (first : ∀ j < config.maxRetries.toNat, ¬ Usable (outcomes j)) {j : Nat}
      (hj : j < calls) (usable : Usable (outcomes j)) (used : 1 ≤ result.chunksUsed)
      (fallback : result.usedFallback = false)
  | minimal (all : ∀ j < calls, ¬ Usable (outcomes j)) (hcalls : config.maxRetries.toNat ≤ calls)
      (summary : result.summary = minimalNote older kept) (used : result.chunksUsed = 0)
      (fallback : result.usedFallback = true)

/-- The result accounts for every message: the last ones are kept, the others counted, and
the summary comes from one of the stages, with so many calls at most. -/
structure Accounts (config : CompactionConfig) (outcomes : Outcomes) (messages : List Message)
    (result : CompactionResult) (calls : Nat) : Prop where
  kept : result.keptMessages = messages.rtake (min config.keepRecent messages.length)
  counted : result.compactedCount + result.keptMessages.length = messages.length
  bounded : calls ≤ config.maxRetries.toNat * (1 + (result.compactedCount + 4) / 5) + 1
  stage : (messages.length ≤ config.keepRecent ∧ calls = 0 ∧ result.chunksUsed = 0 ∧
      result.usedFallback = false) ∨
    Stage config outcomes result.compactedCount result.keptMessages.length result calls

/-- The older messages. -/
def older (config : CompactionConfig) (messages : List Message) : List Message :=
  messages.take (messages.length - config.keepRecent)

theorem compactSession_few {session : Session}
    (h : session.messages.length ≤ config.keepRecent) :
    compactSession u config outcomes model session =
      .ok (.ok ⟨[], session.messages, 0, 0, false⟩, []) := by
  rw [compactSession]
  exact if_pos h

theorem compactSession_many {session : Session}
    (h : ¬ session.messages.length ≤ config.keepRecent) :
    compactSession u config outcomes model session =
      (summarizeMessages u config outcomes model (older config session.messages) []).bind
        fun p => match p.1 with
        | .ok summary => .ok (.ok ⟨summary,
            session.messages.drop (session.messages.length - config.keepRecent),
            (older config session.messages).length, 1, false⟩, p.2)
        | .error _ =>
          (summarizeInChunks u config outcomes model (older config session.messages) p.2).bind
            fun q => match q.1 with
            | .ok summary =>
              (computeAdaptiveChunkRatio config (older config session.messages)).bind fun ratio =>
                .ok (.ok ⟨summary,
                  session.messages.drop (session.messages.length - config.keepRecent),
                  (older config session.messages).length,
                  if chunkCount (older config session.messages) ratio < 1 then 1
                  else chunkCount (older config session.messages) ratio, false⟩, q.2)
            | .error _ => .ok (.ok ⟨minimalNote (older config session.messages).length
                (session.messages.drop (session.messages.length - config.keepRecent)).length,
                session.messages.drop (session.messages.length - config.keepRecent),
                (older config session.messages).length, 0, true⟩, q.2) := by
  rw [compactSession]
  refine (if_neg h).trans ?_
  refine congrArg (Except.bind _) (funext fun p => ?_)
  obtain ⟨first, made⟩ := p
  cases first with
  | ok summary => rfl
  | error e =>
    refine congrArg (Except.bind _) (funext fun q => ?_)
    obtain ⟨second, made⟩ := q
    cases second <;> rfl

theorem accounts_of_stage {result : CompactionResult} {calls : Nat}
    (hmany : ¬ messages.length ≤ config.keepRecent)
    (hkept : result.keptMessages = messages.drop (messages.length - config.keepRecent))
    (hcount : result.compactedCount = (older config messages).length)
    (hcalls : calls ≤ config.maxRetries.toNat * (1 + ((older config messages).length + 4) / 5) + 1)
    (hstage : Stage config outcomes result.compactedCount result.keptMessages.length result
      calls) : Accounts config outcomes messages result calls where
  kept := by
    rw [hkept, List.rtake, Nat.min_eq_left (Nat.le_of_not_le hmany)]
  counted := by
    rw [hcount, hkept, older, List.length_take, List.length_drop]
    omega
  bounded := by rw [hcount]; exact hcalls
  stage := .inr hstage

/-- Compaction accounts for every message exactly when there is nothing to compact, or the older
messages can be summarized, and in chunks too unless one of the first attempts succeeds. -/
theorem compactSession_accounts_iff (u : Unicode) (config : CompactionConfig)
    (outcomes : Outcomes) (model : Str) (session : Session) :
    (∃ result made, compactSession u config outcomes model session = .ok (.ok result, made) ∧
      Accounts config outcomes session.messages result made.length) ↔
    session.messages.length ≤ config.keepRecent ∨
      (Summarizable u config (older config session.messages) ∧
        ((∃ k < config.maxRetries.toNat, Usable (outcomes k)) ∨
          Chunkable u config (older config session.messages))) := by
  by_cases hfew : session.messages.length ≤ config.keepRecent
  · refine iff_of_true ⟨_, _, compactSession_few hfew, ?_⟩ (.inl hfew)
    refine ⟨?_, Nat.zero_add _, Nat.zero_le _, .inl ⟨hfew, rfl, rfl, rfl⟩⟩
    rw [Nat.min_eq_right hfew, List.rtake, Nat.sub_self, List.drop_zero]
  · rw [or_iff_right hfew, compactSession_many hfew]
    obtain ⟨hsum, req, hreq⟩ | ⟨hsum, fault, hfault⟩ :=
      summarizeMessages_cases (u := u) outcomes model (older config session.messages) []
    · rw [hreq, and_iff_right hsum, Except.bind]
      obtain ⟨k, text, made, hk, hfirst, hrun, hlen⟩ | ⟨hvain, e, made, hrun, hlen⟩ :=
        attempts_cases outcomes req config.maxRetries.toNat [] []
      · rw [hrun]
        refine iff_of_true ⟨_, made, rfl, accounts_of_stage hfew rfl rfl ?_ ?_⟩ (.inl ⟨k, hk, ?_⟩)
        · rw [hlen, List.length_nil, Nat.mul_add]
          omega
        · exact .single hk hfirst rfl rfl (hlen.trans (Nat.zero_add _))
        · have := hfirst.exists
          rwa [List.length_nil, Nat.zero_add] at this
      · rw [hrun]
        have hnone : ¬ ∃ k < config.maxRetries.toNat, Usable (outcomes k) := by
          rintro ⟨k, hk, husable⟩
          have := hvain k hk
          rw [List.length_nil, Nat.zero_add] at this
          exact this husable
        rw [List.length_nil, Nat.zero_add] at hlen
        rw [or_iff_right hnone]
        dsimp only
        obtain ⟨hchunk, result, made', hrun', hbound, hmore, hend⟩ | ⟨hchunk, fault, hfault⟩ :=
          summarizeInChunks_cases (u := u) outcomes model (older config session.messages) made
        · rw [hrun', iff_true_right hchunk, Except.bind]
          have hcalls : made'.length ≤ config.maxRetries.toNat *
              (1 + ((older config session.messages).length + 4) / 5) + 1 := by
            rw [Nat.mul_add]
            omega
          obtain ⟨e', rfl, hvain'⟩ | ⟨summary, j, rfl, hj, husable⟩ := hend
          · refine ⟨_, made', rfl, accounts_of_stage hfew rfl rfl hcalls (.minimal (fun j hj => ?_)
              (hlen ▸ hmore) rfl rfl rfl)⟩
            by_cases hfirst : j < config.maxRetries.toNat
            · exact fun husable => hnone ⟨j, hfirst, husable⟩
            · have hrest := hvain' (j - config.maxRetries.toNat) (by omega)
              rwa [hlen, Nat.add_sub_cancel' (Nat.not_lt.mp hfirst)] at hrest
          · obtain ⟨ratio, hratio, -⟩ := hchunk
            dsimp only
            rw [hratio, Except.bind]
            refine ⟨_, made', rfl, accounts_of_stage hfew rfl rfl hcalls (.chunked
              (fun j hj husable => hnone ⟨j, hj, husable⟩) hj husable ?_ rfl)⟩
            dsimp only
            split
            · exact UInt32.le_refl 1
            · rename_i hused
              exact UInt32.not_lt.mp hused
        · rw [hfault]
          refine iff_of_false ?_ hchunk
          rintro ⟨result, made', hok, -⟩
          cases hok
    · rw [hfault]
      refine iff_of_false ?_ fun h => hsum h.1
      rintro ⟨result, made, hok, -⟩
      cases hok

end Stages

section Inside

/-- In a run of one character only the multiples of its size are boundaries. -/
theorem dvd_of_isSome_splitBytes {a b : Str} {c : Char} {n k : Nat}
    (h : (splitBytes (byteLen a + n) (a ++ (List.replicate k c ++ b))).isSome)
    (hn : n ≤ k * c.utf8Size) : c.utf8Size ∣ n := by
  obtain ⟨x, y, he, hx⟩ := isSome_splitBytes_iff.mp h
  obtain ⟨x', rfl⟩ := prefix_of_byteLen_le (List.prefix_append a _) (he ▸ List.prefix_append x y)
    (by omega)
  rw [List.append_assoc, List.append_cancel_left_eq] at he
  rw [byteLen_append, Nat.add_left_cancel_iff] at hx
  have hrun : x' <+: List.replicate k c :=
    prefix_of_byteLen_le (he ▸ List.prefix_append x' y) (List.prefix_append _ b)
      (by rw [byteLen_replicate, hx]; exact hn)
  obtain ⟨-, hx'⟩ := List.prefix_replicate_iff.mp hrun
  rw [← hx, hx', byteLen_replicate]
  exact Nat.dvd_mul_left _ _

/-- A text that is not oversized stands in the conversation as it is. -/
theorem messageText_user (u : Unicode) {s : Str} (hne : s ≠ []) (hlen : byteLen s ≤ 40000) :
    messageText u CompactionConfig.default (Message.user s) =
      .ok ("User: ".toList ++ (s ++ "\n\n".toList)) := by
  have hsmall : isOversized CompactionConfig.default (Message.user s) = false :=
    decide_eq_false (Nat.not_lt.mpr hlen)
  rw [messageText, hsmall]
  refine congrArg Except.ok ((if_neg hne).trans ((if_neg fun h => ?_).trans ?_))
  · exact Bool.false_ne_true h.1
  · exact (List.append_assoc _ _ _)

theorem buildConversationText_pair (u : Unicode) {s : Str} (hne : s ≠ [])
    (hlen : byteLen s ≤ 40000) :
    buildConversationText u CompactionConfig.default [Message.user s, Message.user s] =
      .ok ("User: ".toList ++ (s ++ ("\n\n".toList ++
        ("User: ".toList ++ (s ++ "\n\n".toList))))) := by
  have hmessage := messageText_user u hne hlen
  rw [buildConversationText, List.mapM_cons, List.mapM_cons, List.mapM_nil, hmessage]
  generalize "User: ".toList = label, "\n\n".toList = gap
  show Except.ok _ = Except.ok _
  rw [List.flatten_cons, List.flatten_cons, List.flatten_nil, List.append_nil, List.append_assoc,
    List.append_assoc]

/-- Two messages of 39000 bytes, in characters of three bytes, and ten short ones. -/
def longSession : Session :=
  ⟨⟨0⟩, ⟨0⟩, List.replicate 2 (Message.user (List.replicate 13000 '日')) ++
    List.replicate 10 (Message.user ['h', 'i']), 0, none⟩

/-- The end of the conversation that fits starts inside a character. -/
theorem longSession_not_summarizable (u : Unicode) :
    ¬ Summarizable u CompactionConfig.default
      (older CompactionConfig.default longSession.messages) := by
  have holder : older CompactionConfig.default longSession.messages =
      [Message.user (List.replicate 13000 '日'), Message.user (List.replicate 13000 '日')] := rfl
  have hmax : effectiveMax CompactionConfig.default = 66666 := by decide +kernel
  have hhead : byteLen "User: ".toList = 6 := by decide
  have hend : byteLen "\n\n".toList = 2 := by decide
  have hsize : '日'.utf8Size = 3 := by decide
  have hrun : byteLen (List.replicate 13000 '日') = 39000 := byteLen_replicate 13000 '日'
  have hne : List.replicate 13000 '日' ≠ [] := List.cons_ne_nil _ _
  rw [holder]
  rintro ⟨text, htext, hfits⟩
  have hbuild := buildConversationText_pair u hne (by rw [hrun]; decide)
  obtain rfl := Except.ok.inj (hbuild.symm.trans htext)
  have hcut := @dvd_of_isSome_splitBytes "User: ".toList
    ("\n\n".toList ++ ("User: ".toList ++ (List.replicate 13000 '日' ++ "\n\n".toList))) '日'
    11344 13000
  rw [hmax] at hfits
  revert hfits hcut
  generalize List.replicate 13000 '日' = run at *
  generalize "User: ".toList = label at *
  generalize "\n\n".toList = gap at *
  intro hfits hcut
  rw [byteLen_append, byteLen_append, byteLen_append, byteLen_append, byteLen_append, hhead, hend,
    hrun] at hfits
  rw [hhead, hsize] at hcut
  exact absurd (hcut (hfits (by decide)) (by decide)) (by decide)

/-- The default configuration, a session of twelve messages, and whatever the driver answers. -/
theorem compactSession_inside_character :
    ¬ ∀ (u : Unicode) (outcomes : Outcomes) (model : Str) (session : Session), ∃ result made,
      compactSession u CompactionConfig.default outcomes model session = .ok (.ok result, made) ∧
        Accounts CompactionConfig.default outcomes session.messages result made.length := by
  intro h
  obtain ⟨result, made, hok, -⟩ := h dottedTables (fun _ => .error (.parse [])) [] longSession
  have hmany : ¬ longSession.messages.length ≤ CompactionConfig.default.keepRecent := by decide
  rw [compactSession_many hmany] at hok
  obtain ⟨hsum, -⟩ | ⟨-, fault, hfault⟩ :=
    summarizeMessages_cases (u := dottedTables) (fun _ => .error (.parse [])) []
      (older CompactionConfig.default longSession.messages) []
  · exact longSession_not_summarizable dottedTables hsum
  · rw [hfault] at hok
    cases hok

end Inside

end Clawreform.Runtime.CompactionStages
