import Clawreform.Lib.Calls
import Clawreform.Types.Scheduler

namespace Clawreform.Kernel

open Clawreform.Lib.Text Clawreform.Lib.Run Clawreform.Lib.Store Clawreform.Lib.Calls
open Clawreform.Types

def maxPendingPerAgent : Nat := 5

inductive ApprovalDecision where
  | approved
  | denied
  | timedOut
  deriving DecidableEq

structure ApprovalRequest where
  id : Uuid
  agentId : Str
  timeoutSecs : UInt64
  deriving DecidableEq

structure ApprovalResponse where
  requestId : Uuid
  decision : ApprovalDecision
  decidedAt : DateTime
  decidedBy : Option Str
  deriving DecidableEq

/-- The sender is the one of the channel of the call that waits. -/
structure PendingRequest where
  request : ApprovalRequest
  sender : CallId
  deriving DecidableEq

/-- A channel for one value. It is closed once its receiver is gone. -/
inductive Oneshot where
  | empty
  | abandoned
  | sent (decision : ApprovalDecision)
  | closed
  deriving DecidableEq

structure ApprovalManager where
  pending : Map Uuid PendingRequest
  channels : Map CallId Oneshot
  deriving DecidableEq

def ApprovalManager.new : ApprovalManager := ⟨∅, ∅⟩

inductive ApprovalCall where
  | requestApproval (req : ApprovalRequest)
  | resolve (requestId : Uuid) (decision : ApprovalDecision) (decidedBy : Option Str)
  deriving DecidableEq

/-- Where a call stands between two accesses to what is shared. A request that waits
looks at its channel and then, when there is nothing, at the clock. -/
inductive ApprovalPhase where
  | counting (req : ApprovalRequest)
  | inserting (req : ApprovalRequest)
  | waiting (id : Uuid) (deadline : DateTime)
  | timing (id : Uuid) (deadline : DateTime)
  | removing (id : Uuid)
  | decided (decision : ApprovalDecision)
  | taking (requestId : Uuid) (decision : ApprovalDecision) (decidedBy : Option Str)
  | sending (sender : CallId) (requestId : Uuid) (decision : ApprovalDecision)
      (decidedBy : Option Str)
  | resolved (sender : CallId) (response : ApprovalResponse)
  | refused (error : Str)
  deriving DecidableEq

section Steps

/-- A timeout that the clock cannot hold ends in thirty years. -/
def deadlineAfter (now : DateTime) (timeoutSecs : UInt64) : DateTime :=
  let deadline := now + timeoutSecs.toNat * nanosPerSec
  if deadline < 2 ^ 63 * nanosPerSec then deadline else now + 86400 * 365 * 30 * nanosPerSec

/-- The sender of a removed entry goes with it. -/
def dropSender (old : Option PendingRequest) (channels : Map CallId Oneshot) :
    Map CallId Oneshot :=
  match old with
  | none => channels
  | some entry => adjust entry.sender (fun c => if c = .empty then .abandoned else c) channels

/-- Sending to a receiver that is gone is not an error. -/
def send (decision : ApprovalDecision) (channel : Oneshot) : Oneshot :=
  if channel = .empty then .sent decision else channel

def ApprovalCall.first : ApprovalCall → ApprovalPhase
  | .requestApproval req => .counting req
  | .resolve requestId decision decidedBy => .taking requestId decision decidedBy

def ApprovalPhase.advance (now : DateTime) (id : CallId) (m : ApprovalManager) :
    ApprovalPhase → ApprovalManager × ApprovalPhase
  | .counting req =>
    let agentPending := (values m.pending).countP fun r => r.request.agentId = req.agentId
    if agentPending ≥ maxPendingPerAgent then (m, .decided .denied) else (m, .inserting req)
  | .inserting req =>
    ({ pending := m.pending.insert req.id ⟨req, id⟩
       channels := (dropSender (m.pending.lookup req.id) m.channels).insert id .empty },
      .waiting req.id (deadlineAfter now req.timeoutSecs))
  | .waiting requestId deadline =>
    match m.channels.lookup id with
    | some (.sent decision) =>
      ({ m with channels := m.channels.insert id .closed }, .decided decision)
    | some .empty => (m, .timing requestId deadline)
    | _ => ({ m with channels := m.channels.insert id .closed }, .removing requestId)
  | .timing requestId deadline =>
    if deadline ≤ now then
      ({ m with channels := m.channels.insert id .closed }, .removing requestId)
    else (m, .waiting requestId deadline)
  | .removing requestId =>
    ({ pending := m.pending.erase requestId
       channels := dropSender (m.pending.lookup requestId) m.channels }, .decided .timedOut)
  | .decided decision => (m, .decided decision)
  | .taking requestId decision decidedBy =>
    match m.pending.lookup requestId with
    | none => (m, .refused ("No pending approval request with id ".toList ++ requestId.toStr))
    | some entry =>
      ({ m with pending := m.pending.erase requestId },
        .sending entry.sender requestId decision decidedBy)
  | .sending sender requestId decision decidedBy =>
    ({ m with channels := adjust sender (send decision) m.channels },
      .resolved sender ⟨requestId, decision, now, decidedBy⟩)
  | .resolved sender response => (m, .resolved sender response)
  | .refused error => (m, .refused error)

def approval : Machine ApprovalManager ApprovalPhase ApprovalCall DateTime Empty where
  first := ApprovalCall.first
  advance now id m p := (p.advance now id m, [])

abbrev ApprovalSystem := System ApprovalManager ApprovalPhase

end Steps

section Agreement

/-- The call waits and its channel is not closed. -/
def ApprovalPhase.listens : ApprovalPhase → Bool
  | .waiting _ _ => true
  | .timing _ _ => true
  | _ => false

/-- The decision is the one a request has ended with, is about to end with, or will
find in its channel. -/
def Receives (s : ApprovalSystem) (r : CallId) (d : ApprovalDecision) : Prop :=
  ∃ p, s.calls.lookup r = some p ∧
    (p = .decided d ∨ p.listens ∧ s.shared.channels.lookup r = some (.sent d) ∨
      (∃ id, p = .removing id) ∧ d = .timedOut)

def Agreed (s : ApprovalSystem) : Prop :=
  ∀ c r response, s.calls.lookup c = some (.resolved r response) → Receives s r response.decision

/-- The request has run into its timeout. -/
def ApprovalPhase.expired : ApprovalPhase → Bool
  | .removing _ => true
  | .decided .timedOut => true
  | _ => false

def Oneshot.value : Oneshot → Option ApprovalDecision
  | .sent decision => some decision
  | _ => none

/-- A decision is sent to a request that still listens, and no request stops listening
with a decision in its channel. -/
def inTime (s : ApprovalSystem) : Move ApprovalCall DateTime → Bool
  | .call _ _ => true
  | .step c now =>
    match s.calls.lookup c with
    | some (.sending r _ d _) => s.shared.channels.lookup r = some .empty ∨
        d = .timedOut ∧ (s.calls.lookup r).any (·.expired)
    | some (.timing _ deadline) => deadline ≤ now →
        ((s.shared.channels.lookup c).bind (·.value)).all (· = .timedOut)
    | _ => true

/-- A channel that is not closed has a call that listens. -/
def Wired (s : ApprovalSystem) : Prop :=
  ∀ r channel, s.shared.channels.lookup r = some channel → channel ≠ .closed →
    ∃ p, s.calls.lookup r = some p ∧ p.listens

theorem wired_new : Wired (.start .new) := by
  intro r channel h
  simp [System.start, ApprovalManager.new] at h

theorem agreed_new : Agreed (.start .new) := by
  intro c r response h
  simp [System.start] at h

/-- A channel with a value keeps it, and a closed one stays closed. -/
structure Keeps (f : Oneshot → Oneshot) : Prop where
  sent : ∀ d, f (.sent d) = .sent d
  closed : f .closed = .closed

theorem keeps_id : Keeps id := ⟨fun _ => rfl, rfl⟩

theorem keeps_send (d : ApprovalDecision) : Keeps (send d) := ⟨fun _ => rfl, rfl⟩

theorem lookup_adjust_keeps {f : Oneshot → Oneshot} (hf : Keeps f) (k r : CallId)
    (channels : Map CallId Oneshot) :
    ∃ g, Keeps g ∧ (adjust k f channels).lookup r = (channels.lookup r).map g := by
  by_cases h : r = k
  · exact ⟨f, hf, by rw [lookup_adjust, if_pos h]⟩
  · exact ⟨id, keeps_id, by rw [lookup_adjust, if_neg h, Option.map_id_fun, id]⟩

theorem lookup_dropSender (old : Option PendingRequest) (r : CallId)
    (channels : Map CallId Oneshot) :
    ∃ g, Keeps g ∧ (dropSender old channels).lookup r = (channels.lookup r).map g := by
  cases old with
  | none => exact ⟨id, keeps_id, by simp [dropSender]⟩
  | some entry =>
    apply lookup_adjust_keeps
    exact ⟨fun _ => rfl, rfl⟩

/-- What a step does to the channels of other calls. -/
theorem lookup_channels_advance (now : DateTime) {c r : CallId} (hr : r ≠ c)
    (m : ApprovalManager) (p : ApprovalPhase) :
    ∃ g, Keeps g ∧ (p.advance now c m).1.channels.lookup r = (m.channels.lookup r).map g := by
  have hsame : ∃ g, Keeps g ∧ m.channels.lookup r = (m.channels.lookup r).map g :=
    ⟨id, keeps_id, by simp⟩
  have hclosed : ∃ g, Keeps g ∧
      (m.channels.insert c .closed).lookup r = (m.channels.lookup r).map g :=
    ⟨id, keeps_id, by simp [hr]⟩
  cases p with
  | counting req =>
    simp only [ApprovalPhase.advance]
    split <;> exact hsame
  | inserting req =>
    simp only [ApprovalPhase.advance, lookup_insert, if_neg hr]
    exact lookup_dropSender _ r _
  | waiting id deadline =>
    simp only [ApprovalPhase.advance]
    split
    · exact hclosed
    · exact hsame
    · exact hclosed
  | timing id deadline =>
    simp only [ApprovalPhase.advance]
    split
    · exact hclosed
    · exact hsame
  | removing id => exact lookup_dropSender _ r _
  | taking requestId decision decidedBy =>
    simp only [ApprovalPhase.advance]
    split <;> exact hsame
  | sending sender requestId decision decidedBy =>
    exact lookup_adjust_keeps (keeps_send decision) sender r _
  | decided | resolved | refused => exact hsame

theorem Keeps.ne_closed {f : Oneshot → Oneshot} (hf : Keeps f) {old : Option Oneshot}
    {channel : Oneshot} (h : old.map f = some channel) (hopen : channel ≠ .closed) :
    ∃ channel', old = some channel' ∧ channel' ≠ .closed := by
  obtain ⟨channel', hold, rfl⟩ := Option.map_eq_some_iff.mp h
  refine ⟨channel', hold, ?_⟩
  rintro rfl
  exact hopen hf.closed

/-- After a step of its own a call listens if its channel is not closed. -/
theorem listens_advance (now : DateTime) {c : CallId} {m : ApprovalManager} {p : ApprovalPhase}
    (hp : ∀ channel, m.channels.lookup c = some channel → channel ≠ .closed → p.listens)
    {channel : Oneshot} (h : (p.advance now c m).1.channels.lookup c = some channel)
    (hopen : channel ≠ .closed) : (p.advance now c m).2.listens := by
  have hclosed : (m.channels.insert c .closed).lookup c ≠ some channel := by
    simpa using hopen.symm
  have hkept : (∃ g, Keeps g ∧ (p.advance now c m).1.channels.lookup c =
      (m.channels.lookup c).map g) → p.listens := by
    rintro ⟨g, hg, hmap⟩
    obtain ⟨old, hold, hne⟩ := hg.ne_closed (hmap.symm.trans h) hopen
    exact hp old hold hne
  have hid : ∃ g, Keeps g ∧ m.channels.lookup c = (m.channels.lookup c).map g :=
    ⟨id, keeps_id, by simp⟩
  cases p with
  | inserting req => rfl
  | waiting id deadline =>
    simp only [ApprovalPhase.advance] at h ⊢
    split at h
    · exact absurd h hclosed
    · rfl
    · exact absurd h hclosed
  | timing id deadline =>
    simp only [ApprovalPhase.advance] at h ⊢
    split at h
    · exact absurd h hclosed
    · rw [if_neg (by assumption)]
      rfl
  | counting req =>
    have hcounting := hkept (by simp only [ApprovalPhase.advance]; split <;> exact hid)
    cases hcounting
  | removing id =>
    have hremoving := hkept (lookup_dropSender _ c _)
    cases hremoving
  | taking requestId decision decidedBy =>
    have htaking := hkept (by simp only [ApprovalPhase.advance]; split <;> exact hid)
    cases htaking
  | sending sender requestId decision decidedBy =>
    have hsending := hkept (lookup_adjust_keeps (keeps_send decision) sender c _)
    cases hsending
  | decided decision =>
    have hdecided := hkept hid
    cases hdecided
  | resolved sender response =>
    have hresolved := hkept hid
    cases hresolved
  | refused error =>
    have hrefused := hkept hid
    cases hrefused

theorem wired_step {s : ApprovalSystem} (h : Wired s) (m : Move ApprovalCall DateTime) :
    Wired (approval.step s m).1 := by
  intro r channel hr hopen
  cases m with
  | call c input =>
    have hshared : (approval.step s (.call c input)).1.shared = s.shared := by
      simp only [Machine.step]
      split <;> rfl
    rw [hshared] at hr
    obtain ⟨p, hp, hlistens⟩ := h r channel hr hopen
    exact ⟨p, lookup_step_other approval hp rfl, hlistens⟩
  | step c now =>
    cases hc : s.calls.lookup c with
    | none =>
      simp only [Machine.step, hc] at hr ⊢
      exact h r channel hr hopen
    | some p =>
      simp only [Machine.step, hc] at hr
      by_cases hrc : r = c
      · subst hrc
        refine ⟨_, lookup_step_self approval now hc, listens_advance now ?_ hr hopen⟩
        intro old hold hne
        obtain ⟨q, hq, hlistens⟩ := h r old hold hne
        rw [hc] at hq
        cases hq
        exact hlistens
      · obtain ⟨g, hg, hmap⟩ := lookup_channels_advance now hrc s.shared p
        obtain ⟨old, hold, hne⟩ := hg.ne_closed (hmap.symm.trans hr) hopen
        obtain ⟨q, hq, hlistens⟩ := h r old hold hne
        refine ⟨q, lookup_step_other approval hq ?_, hlistens⟩
        simpa [Move.isStepOf] using fun he => hrc he.symm

/-- A decision on its way to a request is not lost by a step of another call. -/
theorem Receives.other {s : ApprovalSystem} {r c : CallId} {d : ApprovalDecision} {now : DateTime}
    {p : ApprovalPhase} (hc : s.calls.lookup c = some p) (hrc : r ≠ c) (h : Receives s r d) :
    Receives (approval.step s (.step c now)).1 r d := by
  obtain ⟨q, hq, hd⟩ := h
  refine ⟨q, lookup_step_other approval hq (by simpa [Move.isStepOf] using hrc.symm), ?_⟩
  rcases hd with hdecided | ⟨hlistens, hsent⟩ | hremoving
  · exact .inl hdecided
  · obtain ⟨g, hg, hmap⟩ := lookup_channels_advance now hrc s.shared p
    refine .inr (.inl ⟨hlistens, ?_⟩)
    simp only [Machine.step, hc]
    exact hmap.trans (by rw [hsent, Option.map_some, hg.sent])
  · exact .inr (.inr hremoving)

/-- Nor by a step of the request, when that step is in time. -/
theorem Receives.self {s : ApprovalSystem} {r : CallId} {d : ApprovalDecision} {now : DateTime}
    (hok : inTime s (.step r now)) (h : Receives s r d) :
    Receives (approval.step s (.step r now)).1 r d := by
  obtain ⟨p, hp, hd⟩ := h
  refine ⟨_, lookup_step_self approval now hp, ?_⟩
  simp only [Machine.step, hp]
  rcases hd with rfl | ⟨hlistens, hsent⟩ | ⟨⟨id, rfl⟩, rfl⟩
  · exact .inl rfl
  · cases p with
    | waiting id deadline =>
      left
      simp [approval, ApprovalPhase.advance, hsent]
    | timing id deadline =>
      by_cases hlate : deadline ≤ now
      · have htimedOut : d = .timedOut := by
          simpa [inTime, hp, hsent, hlate, Oneshot.value] using hok
        right; right
        exact ⟨⟨id, by simp [approval, ApprovalPhase.advance, hlate]⟩, htimedOut⟩
      · right; left
        simp [approval, ApprovalPhase.advance, hlate, hsent, ApprovalPhase.listens]
    | _ => cases hlistens
  · exact .inl rfl

/-- A decision that is sent in time is received. -/
theorem receives_sent {s : ApprovalSystem} (hwired : Wired s) {c r : CallId} {requestId : Uuid}
    {d : ApprovalDecision} {decidedBy : Option Str} {now : DateTime}
    (hc : s.calls.lookup c = some (.sending r requestId d decidedBy))
    (hok : inTime s (.step c now)) : Receives (approval.step s (.step c now)).1 r d := by
  have hin : s.shared.channels.lookup r = some .empty ∨
      d = .timedOut ∧ (s.calls.lookup r).any (·.expired) := by
    simpa [inTime, hc] using hok
  rcases hin with hempty | ⟨rfl, hexpired⟩
  · obtain ⟨p, hp, hlistens⟩ := hwired r .empty hempty (by decide)
    have hne : r ≠ c := by
      rintro rfl
      rw [hc] at hp
      cases hp
      cases hlistens
    refine ⟨p, lookup_step_other approval hp (by simpa [Move.isStepOf] using hne.symm), ?_⟩
    refine .inr (.inl ⟨hlistens, ?_⟩)
    simp [Machine.step, hc, approval, ApprovalPhase.advance, hempty, send]
  · obtain ⟨p, hp, hpexpired⟩ := (Option.any_eq_true _ _).mp hexpired
    have hne : r ≠ c := by
      rintro rfl
      rw [hc] at hp
      cases hp
      cases hpexpired
    refine ⟨p, lookup_step_other approval hp (by simpa [Move.isStepOf] using hne.symm), ?_⟩
    cases p with
    | removing id => exact .inr (.inr ⟨⟨id, rfl⟩, rfl⟩)
    | decided decision =>
      cases decision with
      | timedOut => exact .inl rfl
      | _ => cases hpexpired
    | _ => cases hpexpired

theorem Receives.call {s : ApprovalSystem} {r c : CallId} {d : ApprovalDecision}
    {input : ApprovalCall} (h : Receives s r d) :
    Receives (approval.step s (.call c input)).1 r d := by
  obtain ⟨p, hp, hd⟩ := h
  refine ⟨p, lookup_step_other approval hp rfl, ?_⟩
  have hshared : (approval.step s (.call c input)).1.shared = s.shared := by
    simp only [Machine.step]
    split <;> rfl
  rwa [hshared]

/-- Where a resolve comes to its end. -/
theorem advance_resolved {now : DateTime} {c r : CallId} {m : ApprovalManager} {p : ApprovalPhase}
    {response : ApprovalResponse} (h : (p.advance now c m).2 = .resolved r response) :
    p = .resolved r response ∨
      ∃ requestId decidedBy, p = .sending r requestId response.decision decidedBy := by
  cases p with
  | resolved sender response' => exact .inl h
  | sending sender requestId decision decidedBy =>
    simp only [ApprovalPhase.advance, ApprovalPhase.resolved.injEq] at h
    obtain ⟨rfl, rfl⟩ := h
    exact .inr ⟨requestId, decidedBy, rfl⟩
  | waiting id deadline =>
    simp only [ApprovalPhase.advance] at h
    split at h <;> cases h
  | counting | timing | taking =>
    simp only [ApprovalPhase.advance] at h
    split at h <;> cases h
  | inserting | removing | decided | refused => cases h

theorem agreed_step {s : ApprovalSystem} (hwired : Wired s) (h : Agreed s)
    (m : Move ApprovalCall DateTime) (hok : inTime s m) : Agreed (approval.step s m).1 := by
  intro c r response hc
  cases m with
  | call c' input =>
    apply Receives.call
    apply h c
    simp only [Machine.step] at hc
    split at hc
    · rw [lookup_insert] at hc
      split at hc
      · cases input <;> cases hc
      · exact hc
    · exact hc
  | step c' now =>
    cases hc' : s.calls.lookup c' with
    | none =>
      simp only [Machine.step, hc'] at hc ⊢
      exact h c r response hc
    | some p =>
      have hold : s.calls.lookup c = some (.resolved r response) →
          Receives (approval.step s (.step c' now)).1 r response.decision := by
        intro hres
        have hreceives := h c r response hres
        by_cases hr : r = c'
        · subst hr
          exact hreceives.self hok
        · exact hreceives.other hc' hr
      by_cases hcc : c = c'
      · subst hcc
        rw [lookup_step_self approval now hc'] at hc
        rcases advance_resolved (Option.some.inj hc) with rfl | ⟨requestId, decidedBy, rfl⟩
        · exact hold hc'
        · exact receives_sent hwired hc' hok
      · apply hold
        simpa [Machine.step, hc', lookup_insert, hcc] using hc

theorem Receives.decided {s : ApprovalSystem} {r : CallId} {d d' : ApprovalDecision}
    (h : Receives s r d) (hr : s.calls.lookup r = some (.decided d')) : d' = d := by
  obtain ⟨p, hp, hd⟩ := h
  rw [hr] at hp
  cases hp
  rcases hd with hdecided | ⟨hlistens, -⟩ | ⟨⟨id, hid⟩, -⟩
  · exact ApprovalPhase.decided.inj hdecided
  · cases hlistens
  · cases hid

theorem run_wired_agreed {ms : List (Move ApprovalCall DateTime)}
    (hms : Allowed approval.step (fun s m => inTime s m) (.start .new) ms) :
    Wired (run approval.step (.start .new) ms).1 ∧ Agreed (run approval.step (.start .new) ms).1 :=
  run_invariant_of_allowed approval.step (fun s _ => Wired s ∧ Agreed s)
    (fun _ _ m hs hm => ⟨wired_step hs.1 m, agreed_step hs.1 hs.2 m hm⟩)
    ⟨wired_new, agreed_new⟩ hms

end Agreement

section Decisions

/-- A request that has not been decided, and how many steps it is away from it at most
once its time is over. -/
def ApprovalPhase.rank : ApprovalPhase → Option Nat
  | .counting _ => some 5
  | .inserting _ => some 4
  | .waiting _ _ => some 3
  | .timing _ _ => some 2
  | .removing _ => some 1
  | .decided _ => some 0
  | _ => none

def ApprovalPhase.late (now : DateTime) : ApprovalPhase → Bool
  | .waiting _ deadline => deadline ≤ now
  | .timing _ deadline => deadline ≤ now
  | _ => true

theorem rank_advance {now : DateTime} {c : CallId} {m : ApprovalManager} {p : ApprovalPhase}
    (hp : p.rank.isSome) (hlate : p.late now) :
    (p.advance now c m).2.rank.isSome ∧
      (p.advance now c m).2.rank.getD 0 ≤ p.rank.getD 0 - 1 := by
  cases p with
  | counting req =>
    simp only [ApprovalPhase.advance]
    split <;> simp [ApprovalPhase.rank]
  | waiting id deadline =>
    simp only [ApprovalPhase.advance]
    split <;> simp [ApprovalPhase.rank]
  | timing id deadline =>
    have hdeadline : deadline ≤ now := by simpa [ApprovalPhase.late] using hlate
    simp [ApprovalPhase.advance, ApprovalPhase.rank, hdeadline]
  | inserting | removing | decided => simp [ApprovalPhase.advance, ApprovalPhase.rank]
  | taking | sending | resolved | refused => cases hp

/-- A request is decided after at most five steps, those in which it waits taken
after its deadline, whatever other calls do in between. -/
theorem request_decided {s : ApprovalSystem} {r : CallId} {p : ApprovalPhase}
    (h : s.calls.lookup r = some p) (hp : p.rank.isSome) {ms : List (Move ApprovalCall DateTime)}
    (hms : Allowed approval.step (Permits fun now c _ q => c = r → q.late now) s ms)
    (hcount : p.rank.getD 0 ≤ ms.countP (·.isStepOf r)) :
    ∃ d, (run approval.step s ms).1.calls.lookup r = some (.decided d) := by
  obtain ⟨q, hq, hgood, hrank⟩ := ends_of_rank (M := approval) (·.rank.isSome)
    (·.rank.getD 0) (fun now p => p.late now) (fun _ _ _ hp hlate => rank_advance hp hlate) h hp
    hms hcount
  cases q with
  | decided d => exact ⟨d, hq⟩
  | _ => simp_all [ApprovalPhase.rank]

theorem decision_final {s : ApprovalSystem} {r : CallId} {d : ApprovalDecision}
    (h : s.calls.lookup r = some (.decided d)) (ms : List (Move ApprovalCall DateTime)) :
    (run approval.step s ms).1.calls.lookup r = some (.decided d) :=
  lookup_run_of_final (fun _ _ => rfl) h ms

/-- In a run in which decisions come in time, what a resolve reports as recorded is
what its request gets. In every run a request that has been decided stays decided, and
one whose time is over gets decided. -/
theorem approval_agreement (ms : List (Move ApprovalCall DateTime))
    (hms : Allowed approval.step (fun s m => inTime s m) (.start .new) ms) :
    (∀ c r response,
      (run approval.step (.start .new) ms).1.calls.lookup c = some (.resolved r response) →
      Receives (run approval.step (.start .new) ms).1 r response.decision ∧
      ∀ d, (run approval.step (.start .new) ms).1.calls.lookup r = some (.decided d) →
        d = response.decision) ∧
    ∀ before more, ms = before ++ more →
      ∀ r p, (run approval.step (.start .new) before).1.calls.lookup r = some p → p.rank.isSome →
      (∀ d, p = .decided d →
        (run approval.step (.start .new) ms).1.calls.lookup r = some (.decided d)) ∧
      (Allowed approval.step (Permits fun now c _ q => c = r → q.late now)
          (run approval.step (.start .new) before).1 more →
        p.rank.getD 0 ≤ more.countP (·.isStepOf r) →
        ∃ d, (run approval.step (.start .new) ms).1.calls.lookup r = some (.decided d)) := by
  constructor
  · intro c r response hc
    have hreceives := (run_wired_agreed hms).2 c r response hc
    exact ⟨hreceives, fun d hd => hreceives.decided hd⟩
  · rintro before more rfl r p hp hrank
    rw [run_append]
    constructor
    · rintro d rfl
      exact decision_final hp more
    · intro hlate hcount
      exact request_decided hp hrank hlate hcount

def exampleRequest : ApprovalRequest := ⟨7, "agent".toList, 60⟩

/-- A request, and a resolve that approves it. -/
def exampleApproval (steps : List (CallId × DateTime)) : List (Move ApprovalCall DateTime) :=
  .call 0 (.requestApproval exampleRequest) :: .call 1 (.resolve 7 .approved none) ::
    steps.map fun p => .step p.1 p.2

def minuteLater : DateTime := 61 * nanosPerSec

/-- The same request without the resolve. -/
def exampleTimeout (steps : List DateTime) : List (Move ApprovalCall DateTime) :=
  .call 0 (.requestApproval exampleRequest) :: steps.map fun now => .step 0 now

theorem approval_agreement_example :
    Receives (run approval.step (.start .new)
      (exampleApproval [(0, 0), (0, 0), (0, 0), (1, 1), (1, 1), (0, 1), (0, 2)])).1 0 .approved ∧
    ∃ d, (run approval.step (.start .new) (exampleTimeout [0, 0] ++
      [.step 0 minuteLater, .step 0 minuteLater, .step 0 minuteLater])).1.calls.lookup 0 =
        some (.decided d) := by
  constructor
  · exact ((approval_agreement _ (by decide)).1 1 0 ⟨7, .approved, 1, none⟩ (by decide)).1
  · exact (((approval_agreement _ (by decide)).2 (exampleTimeout [0, 0]) _ rfl 0
      (.waiting 7 (60 * nanosPerSec)) (by decide) (by decide)).2 (by decide) (by decide))

/-- The request times out after its entry was taken and before the decision is sent. -/
theorem approved_after_timeout : ¬ Agreed (run approval.step (.start .new)
    (exampleApproval [(0, 0), (0, 0), (0, 0), (1, 1), (0, minuteLater), (1, minuteLater),
      (0, minuteLater)])).1 := by
  intro h
  have hreceives := h 1 0 ⟨7, .approved, minuteLater, none⟩ (by decide)
  have hdecided : (run approval.step (.start .new)
      (exampleApproval [(0, 0), (0, 0), (0, 0), (1, 1), (0, minuteLater), (1, minuteLater),
        (0, minuteLater)])).1.calls.lookup 0 = some (.decided .timedOut) := by decide
  exact absurd (hreceives.decided hdecided) (by decide)

end Decisions

end Clawreform.Kernel
