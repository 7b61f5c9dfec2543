import Clawreform.Channels.Bridge
import Clawreform.Lib.Infix
import Clawreform.Lib.Run

namespace Clawreform.Channels.RateLimiting

open Clawreform.Lib.Text Clawreform.Lib.Store Clawreform.Lib.Trace Clawreform.Lib.Run
open Clawreform.Lib.Infix Clawreform.Types

section Calls

/-- A call of `check`, at a moment of the clock. -/
structure Call where
  now : DateTime
  channelType : Str
  platformId : Str
  maxPerMinute : Nat
  deriving DecidableEq

def Call.user (c : Call) : Str × Str := (c.channelType, c.platformId)

def Call.key (c : Call) : Str := joined ':' c.channelType c.platformId

/-- A call, and whether it is accepted. -/
abbrev Answer := Call × Bool

def step (limiter : ChannelRateLimiter) (c : Call) : ChannelRateLimiter × List Answer :=
  let r := limiter.check c.now c.channelType c.platformId c.maxPerMinute
  (r.2, [(c, r.1.isOk)])

/-- The answers to a run of calls, starting with an empty limiter. -/
def answers (calls : List Call) : List Answer := (run step ∅ calls).2

/-- Less than a minute ago. -/
def Recent (now ts : DateTime) : Prop := now - ts < minute

instance (now ts : DateTime) : Decidable (Recent now ts) := inferInstanceAs (Decidable (_ < _))

/-- The accepted calls under a limit, of those with one key. -/
def stamps (past : List Answer) (key : Str) : List DateTime :=
  past.filterMap fun e =>
    if e.2 ∧ e.1.maxPerMinute ≠ 0 ∧ e.1.key = key then some e.1.now else none

/-- The calls of a user under a limit that were accepted within the minute up to now. -/
def acceptedRecently (past : List Answer) (user : Str × Str) (now : DateTime) : Nat :=
  past.countP fun e => e.2 ∧ e.1.maxPerMinute ≠ 0 ∧ e.1.user = user ∧ Recent now e.1.now

/-- A call is rejected exactly if there is a limit and as many calls of its user were accepted. -/
def Right (past : List Answer) (e : Answer) : Prop :=
  e.2 = false ↔ e.1.maxPerMinute ≠ 0 ∧
    e.1.maxPerMinute ≤ acceptedRecently past e.1.user e.1.now

end Calls

section Buckets

variable {limiter : ChannelRateLimiter} {past : List Answer} {T now : DateTime} {c : Call}

theorem recent_iff {ts : DateTime} : max (now - ts) 0 < minute ↔ Recent now ts :=
  max_lt_iff.trans (and_iff_left (by decide))

def bucket (limiter : ChannelRateLimiter) (key : Str) : List DateTime :=
  (limiter.lookup key).getD []

/-- From a moment on, the buckets hold the accepted calls as far as they are recent. -/
def Agrees (limiter : ChannelRateLimiter) (past : List Answer) (T : DateTime) : Prop :=
  ∀ key now, T ≤ now →
    (bucket limiter key).filter (Recent now ·) = (stamps past key).filter (Recent now ·)

theorem check_eq (limiter : ChannelRateLimiter) (c : Call) : step limiter c =
    if c.maxPerMinute = 0 then (limiter, [(c, true)])
    else
      let recent := (bucket limiter c.key).filter (Recent c.now ·)
      if c.maxPerMinute ≤ recent.length then (limiter.insert c.key recent, [(c, false)])
      else (limiter.insert c.key (recent ++ [c.now]), [(c, true)]) := by
  have hrecent : ((limiter.lookup c.key).getD []).filter (fun ts => max (c.now - ts) 0 < minute) =
      (bucket limiter c.key).filter (Recent c.now ·) :=
    List.filter_congr fun ts _ => decide_eq_decide.mpr recent_iff
  unfold step ChannelRateLimiter.check
  split
  · rfl
  · dsimp only
    rw [show c.channelType ++ ':' :: c.platformId = c.key from rfl, hrecent]
    split <;> rfl

theorem bucket_insert (limiter : ChannelRateLimiter) (k : Str) (v : List DateTime) (key : Str) :
    bucket (limiter.insert k v) key = if key = k then v else bucket limiter key := by
  rw [bucket, lookup_insert]
  split <;> rfl

theorem stamps_concat (past : List Answer) (c : Call) (accepted : Bool) (key : Str) :
    stamps (past ++ [(c, accepted)]) key = stamps past key ++
      if accepted ∧ c.maxPerMinute ≠ 0 ∧ c.key = key then [c.now] else [] := by
  rw [stamps, List.filterMap_append]
  congr 1
  by_cases h : accepted = true ∧ c.maxPerMinute ≠ 0 ∧ c.key = key
  · rw [if_pos h]
    exact List.filterMap_cons_some (if_pos h)
  · rw [if_neg h]
    exact List.filterMap_cons_none (if_neg h)

/-- What is recent later on is recent before. -/
theorem filter_recent_recent {l : List DateTime} {now later : DateTime} (h : now ≤ later) :
    (l.filter (Recent now ·)).filter (Recent later ·) = l.filter (Recent later ·) := by
  rw [List.filter_filter]
  refine List.filter_congr fun ts _ => ?_
  rw [Bool.and_eq_left_iff_imp, decide_eq_true_iff, decide_eq_true_iff]
  exact (Int.sub_le_sub_right h ts).trans_lt

theorem agrees_empty (T : DateTime) : Agrees ∅ [] T := fun _ _ _ => rfl

theorem Agrees.step (h : Agrees limiter past T) (hT : T ≤ c.now) :
    Agrees (step limiter c).1 (past ++ (step limiter c).2) c.now := by
  intro key later hlater
  have hold := h key later (hT.trans hlater)
  rw [check_eq]
  split
  · rename_i hzero
    rw [stamps_concat, if_neg fun hc => hc.2.1 hzero, List.append_nil, hold]
  · rename_i hlimit
    dsimp only
    split
    · rw [stamps_concat, if_neg fun hc => Bool.false_ne_true hc.1, List.append_nil, bucket_insert]
      split
      · rename_i hkey
        rw [filter_recent_recent hlater, ← hkey, hold]
      · exact hold
    · rw [stamps_concat, bucket_insert]
      by_cases hkey : key = c.key
      · rw [if_pos hkey, if_pos ⟨rfl, hlimit, hkey.symm⟩, List.filter_append, List.filter_append,
          filter_recent_recent hlater, ← hkey, hold]
      · rw [if_neg hkey, if_neg fun hc => hkey hc.2.2.symm, List.append_nil, hold]

theorem length_stamps (past : List Answer) (key : Str) (now : DateTime) :
    ((stamps past key).filter (Recent now ·)).length = past.countP fun e =>
      e.2 ∧ e.1.maxPerMinute ≠ 0 ∧ e.1.key = key ∧ Recent now e.1.now := by
  induction past using List.reverseRecOn with
  | nil => rfl
  | append_singleton past e ih =>
    obtain ⟨c, accepted⟩ := e
    rw [stamps_concat, List.filter_append, List.length_append, ih, List.countP_append]
    congr 1
    by_cases h : accepted = true ∧ c.maxPerMinute ≠ 0 ∧ c.key = key
    · by_cases hrecent : Recent now c.now
      · simp [h, hrecent]
      · simp [h, hrecent]
    · rw [if_neg h, List.countP_singleton, if_neg]
      · rfl
      · rw [decide_eq_true_iff]
        exact fun hc => h ⟨hc.1, hc.2.1, hc.2.2.1⟩

/-- The calls of different users have different keys. -/
def Apart (calls : List Call) : Prop := ∀ a ∈ calls, ∀ b ∈ calls, a.key = b.key → a.user = b.user

/-- One call is answered as it should be. -/
theorem right_step (h : Agrees limiter past T) (hT : T ≤ c.now)
    (hapart : ∀ e ∈ past, e.1.key = c.key → e.1.user = c.user) {e : Answer}
    (he : e ∈ (step limiter c).2) : Right past e := by
  have hcount : ((bucket limiter c.key).filter (Recent c.now ·)).length =
      acceptedRecently past c.user c.now := by
    rw [h c.key c.now hT, length_stamps, acceptedRecently]
    refine List.countP_congr fun e he => ?_
    rw [decide_eq_true_iff, decide_eq_true_iff]
    have huser : e.1.key = c.key ↔ e.1.user = c.user :=
      ⟨hapart e he, fun heq => congrArg (fun u : Str × Str => joined ':' u.1 u.2) heq⟩
    rw [huser]
  rw [check_eq] at he
  dsimp only at he
  rw [hcount] at he
  unfold Right
  split at he
  · rename_i hzero
    obtain rfl := List.mem_singleton.mp he
    exact iff_of_false (Bool.noConfusion ·) fun hc => hc.1 hzero
  · rename_i hlimit
    split at he
    · rename_i hfull
      obtain rfl := List.mem_singleton.mp he
      exact iff_of_true rfl ⟨hlimit, hfull⟩
    · rename_i hfree
      obtain rfl := List.mem_singleton.mp he
      exact iff_of_false (Bool.noConfusion ·) fun hc => hfree hc.2

theorem step_singleton (limiter : ChannelRateLimiter) (c : Call) :
    ∃ accepted, (step limiter c).2 = [(c, accepted)] := ⟨_, rfl⟩

/-- A run of calls is answered as it should be. -/
theorem run_right {all : List Call} (hall : Apart all) (calls : List Call)
    (hcalls : ∀ c ∈ calls, c ∈ all) (hpast : ∀ e ∈ past, e.1 ∈ all)
    (h : Agrees limiter past T) (hT : ∀ c ∈ calls, T ≤ c.now)
    (hsorted : calls.Pairwise (·.now ≤ ·.now)) (hright : Always Right past) :
    Always Right (past ++ (run step limiter calls).2) := by
  induction calls generalizing limiter past T with
  | nil => rwa [run_nil, List.append_nil]
  | cons c calls ih =>
    obtain ⟨hfirst, hrest⟩ := List.pairwise_cons.mp hsorted
    have hc : T ≤ c.now := hT c (List.mem_cons_self ..)
    have hmem : c ∈ all := hcalls c (List.mem_cons_self ..)
    have hagrees := h.step hc
    obtain ⟨accepted, haccepted⟩ := step_singleton limiter c
    have hanswer : Right past (c, accepted) :=
      right_step h hc (fun e he => hall e.1 (hpast e he) c hmem) (haccepted ▸ List.mem_cons_self ..)
    rw [haccepted] at hagrees
    rw [run_cons, haccepted, ← List.append_assoc]
    refine ih (fun b hb => hcalls b (List.mem_cons_of_mem _ hb)) ?_ hagrees hfirst hrest
      (always_concat.mpr ⟨hright, hanswer⟩)
    intro e he
    obtain he | he := List.mem_append.mp he
    · exact hpast e he
    · rwa [List.mem_singleton.mp he]

end Buckets

section Limits

variable {calls : List Call} {trace trace' : List Answer}

/-- Accepted under a limit, in the minute from a moment on. -/
def InWindow (user : Str × Str) (start : DateTime) (e : Answer) : Prop :=
  e.2 = true ∧ e.1.maxPerMinute ≠ 0 ∧ e.1.user = user ∧ start ≤ e.1.now ∧
    e.1.now - start < minute

instance (user : Str × Str) (start : DateTime) : DecidablePred (InWindow user start) :=
  fun _ => inferInstanceAs (Decidable (_ ∧ _ ∧ _ ∧ _ ∧ _))

/-- What the limiter is for. The limits may differ from call to call. -/
structure Limits (calls : List Call) : Prop where
  window : ∀ user start maximum,
    (∀ e ∈ answers calls, InWindow user start e → e.1.maxPerMinute ≤ maximum) →
    (answers calls).countP (InWindow user start ·) ≤ maximum
  rejected : ∀ past c rest, answers calls = past ++ (c, false) :: rest →
    c.maxPerMinute ≠ 0 ∧ c.maxPerMinute ≤ acceptedRecently past c.user c.now
  independent : ∀ user, (answers calls).filter (·.1.user = user) =
    answers (calls.filter (·.user = user))

theorem answers_calls (calls : List Call) : (answers calls).map Prod.fst = calls := by
  have hfrom : ∀ limiter, ((run step limiter calls).2).map Prod.fst = calls := by
    induction calls with
    | nil => exact fun _ => rfl
    | cons c calls ih =>
      intro limiter
      rw [run_cons, List.map_append, ih]
      rfl
  exact hfrom ∅

theorem answers_right (hsorted : calls.Pairwise (·.now ≤ ·.now)) (hapart : Apart calls) :
    Always Right (answers calls) := by
  cases calls with
  | nil => exact always_nil
  | cons c calls =>
    have hfirst : ∀ b ∈ c :: calls, c.now ≤ b.now := by
      intro b hb
      obtain rfl | hb := List.mem_cons.mp hb
      · exact Int.le_refl _
      · exact (List.pairwise_cons.mp hsorted).1 b hb
    have hnone : ∀ e ∈ ([] : List Answer), e.1 ∈ c :: calls := by simp
    exact run_right hapart (c :: calls) (fun _ h => h) hnone (agrees_empty c.now) hfirst hsorted
      always_nil

/-- The last call accepted in a window was under its limit. -/
theorem count_window (h : Always Right trace) {user : Str × Str} {start : DateTime}
    {maximum : Nat} (hmax : ∀ e ∈ trace, InWindow user start e → e.1.maxPerMinute ≤ maximum) :
    trace.countP (InWindow user start ·) ≤ maximum := by
  induction trace using List.reverseRecOn with
  | nil => exact Nat.zero_le _
  | append_singleton past e ih =>
    obtain ⟨hpast, he⟩ := always_concat.mp h
    rw [List.countP_append, List.countP_singleton]
    by_cases hin : InWindow user start e
    · have hle := hmax e (by simp) hin
      rw [if_pos (decide_eq_true hin)]
      obtain ⟨haccepted, hlimit, huser, -, hbefore⟩ := hin
      have hfree : ¬ e.1.maxPerMinute ≤ acceptedRecently past e.1.user e.1.now :=
        fun hfull => Bool.false_ne_true ((he.mpr ⟨hlimit, hfull⟩).symm.trans haccepted)
      have hcount : past.countP (InWindow user start ·) ≤
          acceptedRecently past e.1.user e.1.now := by
        refine List.countP_mono_left fun b _ hb => ?_
        obtain ⟨hb, hblimit, hbuser, hbstart, -⟩ := of_decide_eq_true hb
        exact decide_eq_true ⟨hb, hblimit, hbuser.trans huser.symm,
          (Int.sub_le_sub_left hbstart e.1.now).trans_lt hbefore⟩
      omega
    · rw [if_neg (by simpa using hin), Nat.add_zero]
      exact ih hpast fun b hb => hmax b (List.mem_append_left _ hb)

/-- The answers are determined by the calls. -/
theorem always_right_unique (h : Always Right trace) (h' : Always Right trace')
    (hsame : trace.map Prod.fst = trace'.map Prod.fst) : trace = trace' := by
  induction trace using List.reverseRecOn generalizing trace' with
  | nil => exact (List.map_eq_nil_iff.mp hsame.symm).symm
  | append_singleton past e ih =>
    cases trace' using List.reverseRecOn with
    | nil => simp at hsame
    | append_singleton past' e' =>
      obtain ⟨hpast, he⟩ := always_concat.mp h
      obtain ⟨hpast', he'⟩ := always_concat.mp h'
      rw [List.map_append, List.map_append] at hsame
      obtain ⟨hcalls, hcall⟩ := List.append_inj' hsame rfl
      obtain rfl := ih hpast hpast' hcalls
      have hfst : e.1 = e'.1 := by simpa using hcall
      have hsnd : e.2 = e'.2 := by
        rw [Bool.eq_iff_iff, ← Bool.not_eq_false, ← Bool.not_eq_false, not_iff_not]
        unfold Right at he he'
        rw [he, he', hfst]
      rw [Prod.ext hfst hsnd]

theorem right_filter {past : List Answer} {e : Answer} (user : Str × Str) (huser : e.1.user = user)
    (h : Right past e) : Right (past.filter (·.1.user = user)) e := by
  have hcount : acceptedRecently (past.filter (·.1.user = user)) e.1.user e.1.now =
      acceptedRecently past e.1.user e.1.now := by
    rw [acceptedRecently, List.countP_filter, acceptedRecently]
    refine List.countP_congr fun b _ => ?_
    simp only [Bool.and_eq_true, decide_eq_true_iff]
    exact and_iff_left_of_imp fun hb => hb.2.2.1.trans huser
  unfold Right
  rw [hcount]
  exact h

theorem always_right_filter (user : Str × Str) (h : Always Right trace) :
    Always Right (trace.filter (·.1.user = user)) := by
  induction trace using List.reverseRecOn with
  | nil => exact always_nil
  | append_singleton past e ih =>
    obtain ⟨hpast, he⟩ := always_concat.mp h
    rw [List.filter_append]
    by_cases huser : e.1.user = user
    · simp only [List.filter_cons, List.filter_nil, huser, decide_true, if_true]
      exact always_concat.mpr ⟨ih hpast, right_filter user huser he⟩
    · simp only [List.filter_cons, List.filter_nil, huser, decide_false, Bool.false_eq_true,
        if_false, List.append_nil]
      exact ih hpast

/-- The limiter does what it is for as long as the keys tell the users apart. -/
theorem check_limits (calls : List Call) (hsorted : calls.Pairwise (·.now ≤ ·.now))
    (hapart : Apart calls) : Limits calls := by
  have hright := answers_right hsorted hapart
  refine ⟨fun user start maximum hmax => count_window hright hmax, ?_, fun user => ?_⟩
  · intro past c rest heq
    exact (hright past (c, false) rest heq).mp rfl
  · have hsub : ∀ c ∈ calls.filter (·.user = user), c ∈ calls :=
      fun c hc => List.mem_of_mem_filter hc
    have hown := answers_right (hsorted.filter _)
      (fun a ha b hb => hapart a (hsub a ha) b (hsub b hb))
    refine always_right_unique (always_right_filter user hright) hown ?_
    have hmap := List.filter_map (p := fun c : Call => c.user = user) (f := Prod.fst)
      (l := answers calls)
    rw [answers_calls] at hmap
    rw [answers_calls, hmap]
    rfl

/-- A channel whose name has the separator in it, and a user whose id has. -/
def sharing : List Call := [⟨0, ['a', ':', 'b'], ['c'], 1⟩, ⟨0, ['a'], ['b', ':', 'c'], 1⟩]

/-- One user twice in a minute, and another one. -/
def chatting : List Call :=
  [⟨0, ['a'], ['b'], 1⟩, ⟨59000000000, ['a'], ['b'], 1⟩, ⟨59000000000, ['a'], ['c'], 1⟩]

theorem check_limits_chatting : Limits chatting ∧
    (answers chatting).map Prod.snd = [true, false, true] := by
  refine ⟨check_limits chatting (by decide) ?_, by decide⟩
  unfold Apart chatting
  decide

/-- The second user is rejected for the call of the first. -/
theorem check_shared_bucket : (answers sharing).map Prod.snd = [true, false] ∧
    ¬ ∀ calls : List Call, calls.Pairwise (·.now ≤ ·.now) → Limits calls := by
  refine ⟨by decide, fun h => ?_⟩
  obtain ⟨-, hcount⟩ := (h sharing (by decide)).rejected
    [(⟨0, ['a', ':', 'b'], ['c'], 1⟩, true)] ⟨0, ['a'], ['b', ':', 'c'], 1⟩ [] (by decide)
  revert hcount
  decide

end Limits

end Clawreform.Channels.RateLimiting
