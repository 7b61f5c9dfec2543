import Clawreform.Lib.Run
import Clawreform.Lib.Trace
import Clawreform.Wire.Peer

namespace Clawreform.Wire

open Clawreform.Lib.Text Clawreform.Lib.Run Clawreform.Lib.Trace Clawreform.Types

abbrev Turn := Surroundings × Except WireError WireMessage

variable {hmacSign : Hmac} {config : PeerConfig}

/-- What a connection does when it is given something to read, turn by turn. -/
def Phase.turn (hmacSign : Hmac) (config : PeerConfig) (phase : Phase) (turn : Turn) :
    Phase × List Effect := phase.step hmacSign config turn.1 turn.2

/-- A handshake of the right version whose signature is verified. -/
def Accepted (hmacSign : Hmac) (config : PeerConfig) (msg : WireMessage) : Prop :=
  ∃ nodeId, Introduces hmacSign config msg nodeId

/-- A call to the kernel or a change of the registry. -/
def Effect.acts : Effect → Bool
  | .localAgents | .agentMessage _ _ _ | .discover _ | .uptime | .registry _ => true
  | .dialled _ | .received _ | .signed _ _ | .wrote _ _ | .failed _ | .delivered _ => false

section Gate

/-- A handshake has been accepted. -/
def Open (hmacSign : Hmac) (config : PeerConfig) (past : List Effect) : Prop :=
  ∃ msg, .received msg ∈ past ∧ Accepted hmacSign config msg

def Gated (hmacSign : Hmac) (config : PeerConfig) (past : List Effect) (effect : Effect) : Prop :=
  effect.acts = true → Open hmacSign config past

theorem Open.append {past : List Effect} (h : Open hmacSign config past) (more : List Effect) :
    Open hmacSign config (past ++ more) := by
  obtain ⟨msg, hmem, hmsg⟩ := h
  exact ⟨msg, List.mem_append_left _ hmem, hmsg⟩

/-- Once the gate is open everything may happen. -/
theorem gated_of_open {past : List Effect} (h : Always (Gated hmacSign config) past)
    (hopen : Open hmacSign config past) (more : List Effect) :
    Always (Gated hmacSign config) (past ++ more) :=
  always_append.mpr ⟨h, fun earlier _ _ _ _ => hopen.append earlier⟩

theorem gated_of_quiet {past more : List Effect} (h : Always (Gated hmacSign config) past)
    (hquiet : ∀ effect ∈ more, effect.acts = false) : Always (Gated hmacSign config) (past ++ more) :=
  h.append fun effect hmem _ hacts => by simp [hquiet effect hmem] at hacts

/-- The gate stands as the phase of the connection has it. -/
def Standing (hmacSign : Hmac) (config : PeerConfig) : Phase → List Effect → Prop
  | .awaitingHandshake _, _ | .closed, _ => True
  | .looping _ _, past => Open hmacSign config past
  | .awaitingAck _, _ | .awaitingSendAck _ _ _, _ | .awaitingReply, _ => False

/-- What is known of an inbound connection at any time. -/
structure Guarded (hmacSign : Hmac) (config : PeerConfig) (phase : Phase) (past : List Effect) :
    Prop where
  gated : Always (Gated hmacSign config) past
  standing : Standing hmacSign config phase past

theorem Guarded.handleInbound {phase : Phase} {past : List Effect}
    (h : Guarded hmacSign config phase past) (env : Surroundings) (addr : SocketAddr)
    (read : Except WireError WireMessage) :
    Guarded hmacSign config (handleInbound hmacSign config env addr read).1
      (past ++ (handleInbound hmacSign config env addr read).2) := by
  rcases handleInbound_cases hmacSign config env addr read with ⟨e, -, heq⟩ |
    ⟨msg, code, text, e, -, -, heq⟩ |
    ⟨msg, nodeId, nodeName, agents, nonce, authHmac, -, hkind, hverify, heq⟩
  · rw [heq]
    exact ⟨gated_of_quiet h.gated (by simp [Effect.acts]), trivial⟩
  · rw [heq]
    exact ⟨gated_of_quiet h.gated (by simp [reject, Effect.acts]), trivial⟩
  · have hmsg : Accepted hmacSign config msg :=
      ⟨nodeId, nodeName, agents, nonce, authHmac, hkind, hverify⟩
    have hopen : Open hmacSign config (past ++ [.received msg]) := ⟨msg, by simp, hmsg⟩
    have hreceived : Always (Gated hmacSign config) (past ++ [.received msg]) :=
      gated_of_quiet h.gated (by simp [Effect.acts])
    rw [heq, admitPeer]
    split
    · simp only [List.cons_append, List.nil_append]
      rw [List.append_cons]
      exact ⟨gated_of_open hreceived hopen _, hopen.append _⟩
    · simp only [List.cons_append, List.nil_append]
      rw [List.append_cons]
      exact ⟨gated_of_open hreceived hopen _, trivial⟩

theorem Guarded.connectionLoop {side : Side} {peerNodeId : Str} {past : List Effect}
    (h : Guarded hmacSign config (.looping side peerNodeId) past) (env : Surroundings)
    (read : Except WireError WireMessage) :
    Guarded hmacSign config (connectionLoop env side peerNodeId read).1
      (past ++ (connectionLoop env side peerNodeId read).2) := by
  have hopen : Open hmacSign config past := h.standing
  refine ⟨gated_of_open h.gated hopen _, ?_⟩
  cases read with
  | error e => trivial
  | ok msg =>
    simp only [Wire.connectionLoop]
    split
    · exact hopen.append _
    · split
      · exact hopen.append _
      · trivial
    · exact hopen.append _

theorem Guarded.turn {phase : Phase} {past : List Effect} (h : Guarded hmacSign config phase past)
    (turn : Turn) : Guarded hmacSign config (phase.turn hmacSign config turn).1
      (past ++ (phase.turn hmacSign config turn).2) := by
  cases phase with
  | awaitingHandshake addr => exact h.handleInbound turn.1 addr turn.2
  | looping side peerNodeId => exact h.connectionLoop turn.1 turn.2
  | closed => exact ⟨by simpa [Phase.turn, Phase.step] using h.gated, trivial⟩
  | awaitingAck addr => exact h.standing.elim
  | awaitingSendAck agent message sender => exact h.standing.elim
  | awaitingReply => exact h.standing.elim

theorem inbound_guarded (addr : SocketAddr) (turns : List Turn) :
    Guarded hmacSign config (run (Phase.turn hmacSign config) (.awaitingHandshake addr) turns).1
      (run (Phase.turn hmacSign config) (.awaitingHandshake addr) turns).2 := by
  have hstart : Guarded hmacSign config (.awaitingHandshake addr) [] := ⟨always_nil, trivial⟩
  have hstep : ∀ phase past turn, Guarded hmacSign config phase past →
      Guarded hmacSign config (phase.turn hmacSign config turn).1
        (past ++ (phase.turn hmacSign config turn).2) := fun _ _ turn h => h.turn turn
  exact run_invariant _ hstep hstart turns

end Gate

section Exchanges

inductive Exchange where
  | asked (id : Str)
  | answered (id : Str)
  deriving DecidableEq

/-- A request that is received, or a response that is written. -/
def Effect.exchange : Effect → Option Exchange
  | .received ⟨id, .request _⟩ => some (.asked id)
  | .wrote ⟨id, .response _⟩ _ => some (.answered id)
  | .received _ | .wrote _ _ | .dialled _ | .signed _ _ | .localAgents | .agentMessage _ _ _
  | .discover _ | .uptime | .registry _ | .failed _ | .delivered _ => none

/-- Every request is followed by one response with its id, before the next one. -/
def InTurn (log : List Effect) : Prop :=
  ∃ ids : List Str, log.filterMap Effect.exchange = ids.flatMap fun id => [.asked id, .answered id]

theorem InTurn.append {log more : List Effect} (h : InTurn log) (hmore : InTurn more) :
    InTurn (log ++ more) := by
  obtain ⟨ids, hids⟩ := h
  obtain ⟨others, hothers⟩ := hmore
  exact ⟨ids ++ others, by rw [List.filterMap_append, hids, hothers, List.flatMap_append]⟩

theorem inTurn_loop (env : Surroundings) (side : Side) (peerNodeId : Str)
    (read : Except WireError WireMessage) : InTurn (connectionLoop env side peerNodeId read).2 := by
  cases read with
  | error e => exact ⟨[], rfl⟩
  | ok msg =>
    obtain ⟨id, kind⟩ := msg
    cases kind with
    | notification notif => exact ⟨[], rfl⟩
    | response response => exact ⟨[], rfl⟩
    | request request =>
      refine ⟨[id], ?_⟩
      simp only [connectionLoop]
      cases request <;> cases env.writes <;> rfl

theorem inTurn_reject (env : Surroundings) (id : Str) (request : WireRequest) (code : Int32)
    (text : Str) (e : WireError) : InTurn (reject env ⟨id, .request request⟩ code text e).2 :=
  ⟨[id], rfl⟩

theorem inTurn_admit (env : Surroundings) (id : Str) (request : WireRequest) (nonce : Str)
    (entry : PeerEntry) : InTurn (admitPeer hmacSign config env ⟨id, .request request⟩ nonce entry).2 := by
  refine ⟨[id], ?_⟩
  simp only [admitPeer]
  cases env.writes <;> rfl

/-- A message is received only at the start of a turn. -/
def Leading (effects : List Effect) : Prop := ∀ msg, .received msg ∉ effects.tail

/-- From every request on, the requests are answered in turn. -/
def Answers (log : List Effect) : Prop :=
  ∀ before id request after, log = before ++ .received ⟨id, .request request⟩ :: after →
    InTurn (.received ⟨id, .request request⟩ :: after)

theorem answers_append {effects log : List Effect} (heffects : Answers effects) (hturn : InTurn log)
    (hlog : Answers log) : Answers (effects ++ log) := by
  intro before id request after heq
  rcases List.append_eq_append_iff.mp heq with ⟨more, rfl, hrest⟩ | ⟨more, hmore, hrest⟩
  · exact hlog more id request after hrest
  · cases more with
    | nil => exact hlog [] id request after hrest.symm
    | cons effect more =>
      obtain ⟨rfl, rfl⟩ := List.cons_eq_cons.mp hrest
      exact (heffects before id request more hmore).append hturn

theorem answers_of_leading {effects : List Effect} (hlead : Leading effects)
    (h : ∀ id request after, effects = .received ⟨id, .request request⟩ :: after → InTurn effects) :
    Answers effects := by
  rintro before id request after rfl
  cases before with
  | nil => exact h id request after rfl
  | cons effect before => exact absurd (by simp) (hlead ⟨id, .request request⟩)

/-- The connection has read its first message. -/
def Serving : Phase → Prop
  | .looping _ _ | .closed => True
  | .awaitingHandshake _ | .awaitingAck _ | .awaitingSendAck _ _ _ | .awaitingReply => False

theorem leading_loop (env : Surroundings) (side : Side) (peerNodeId : Str)
    (read : Except WireError WireMessage) : Leading (connectionLoop env side peerNodeId read).2 := by
  intro msg
  cases read with
  | error e => simp [connectionLoop]
  | ok msg' =>
    obtain ⟨id, kind⟩ := msg'
    cases kind with
    | notification notif => simp [connectionLoop]
    | response response => simp [connectionLoop]
    | request request =>
      simp only [connectionLoop]
      cases request <;> cases env.writes <;> simp [handleRequestInLoop]

theorem leading_handleInbound (env : Surroundings) (addr : SocketAddr)
    (read : Except WireError WireMessage) :
    Leading (handleInbound hmacSign config env addr read).2 := by
  rcases handleInbound_cases hmacSign config env addr read with ⟨e, -, heq⟩ |
    ⟨msg, code, text, e, -, -, heq⟩ |
    ⟨msg, nodeId, nodeName, agents, nonce, authHmac, -, -, -, heq⟩
  · simp [heq, Leading]
  · simp [heq, Leading, reject]
  · rw [heq, admitPeer]
    split <;> simp [Leading]

/-- A message that does not get out is the last of its connection. -/
theorem handleInbound_wrote {env : Surroundings} {addr : SocketAddr}
    {read : Except WireError WireMessage} {msg : WireMessage}
    (h : .wrote msg false ∈ (handleInbound hmacSign config env addr read).2) :
    (handleInbound hmacSign config env addr read).1 = .closed := by
  rcases handleInbound_cases hmacSign config env addr read with ⟨e, -, heq⟩ |
    ⟨msg, code, text, e, -, -, heq⟩ |
    ⟨msg, nodeId, nodeName, agents, nonce, authHmac, -, -, -, heq⟩
  · rw [heq]
  · rw [heq, reject]
  · rw [heq, admitPeer] at h ⊢
    cases hwrites : env.writes <;> simp [hwrites] at h ⊢

theorem connectionLoop_wrote {env : Surroundings} {side : Side} {peerNodeId : Str}
    {read : Except WireError WireMessage} {msg : WireMessage}
    (h : .wrote msg false ∈ (connectionLoop env side peerNodeId read).2) :
    (connectionLoop env side peerNodeId read).1 = .closed := by
  cases read with
  | error e => rfl
  | ok msg' =>
    obtain ⟨id, kind⟩ := msg'
    cases kind with
    | notification notif => simp [connectionLoop] at h
    | response response => simp [connectionLoop] at h
    | request request =>
      simp only [connectionLoop] at h ⊢
      cases hwrites : env.writes with
      | false => rfl
      | true => cases request <;> simp [hwrites, handleRequestInLoop] at h

/-- The connection is one that was accepted. -/
def Inbound : Phase → Prop
  | .awaitingHandshake _ | .looping _ _ | .closed => True
  | .awaitingAck _ | .awaitingSendAck _ _ _ | .awaitingReply => False

theorem Serving.inbound {phase : Phase} (h : Serving phase) : Inbound phase := by
  cases phase <;> trivial

variable (hmacSign config) in
theorem inbound_turn {phase : Phase} (h : Inbound phase) (turn : Turn) :
    Serving (phase.turn hmacSign config turn).1 ∧ Leading (phase.turn hmacSign config turn).2 ∧
      ∀ msg, .wrote msg false ∈ (phase.turn hmacSign config turn).2 →
        (phase.turn hmacSign config turn).1 = .closed := by
  obtain ⟨env, read⟩ := turn
  cases phase with
  | awaitingHandshake addr =>
    refine ⟨?_, leading_handleInbound env addr read, fun msg => handleInbound_wrote⟩
    simp only [Phase.turn, Phase.step]
    rcases handleInbound_cases hmacSign config env addr read with ⟨e, -, heq⟩ |
      ⟨msg, code, text, e, -, -, heq⟩ |
      ⟨msg, nodeId, nodeName, agents, nonce, authHmac, -, -, -, heq⟩
    · rw [heq]
      trivial
    · rw [heq]
      trivial
    · rw [heq, admitPeer]
      split <;> trivial
  | looping side peerNodeId =>
    refine ⟨?_, leading_loop env side peerNodeId read, fun msg => connectionLoop_wrote⟩
    cases read with
    | error e => trivial
    | ok msg =>
      simp only [Phase.turn, Phase.step, connectionLoop]
      split
      · trivial
      · split <;> trivial
      · trivial
  | closed => exact ⟨trivial, nofun, nofun⟩
  | awaitingAck addr => exact h.elim
  | awaitingSendAck agent message sender => exact h.elim
  | awaitingReply => exact h.elim

theorem run_closed (turns : List Turn) : (run (Phase.turn hmacSign config) .closed turns).2 = [] := by
  induction turns with
  | nil => rfl
  | cons turn turns ih =>
    rw [run_cons]
    exact ih

/-- After a message that does not get out nothing is read any more. -/
def Severed (log : List Effect) : Prop :=
  ∀ before msg after, log = before ++ .wrote msg false :: after → ∀ msg', .received msg' ∉ after

theorem severed_run {phase : Phase} (h : Inbound phase) (turns : List Turn) :
    Severed (run (Phase.turn hmacSign config) phase turns).2 := by
  induction turns generalizing phase with
  | nil => exact fun before _ _ heq => by simp at heq
  | cons turn turns ih =>
    obtain ⟨hnext, hlead, hwrote⟩ := inbound_turn hmacSign config h turn
    intro before msg after heq msg'
    rw [run_cons] at heq
    rcases List.append_eq_append_iff.mp heq with ⟨more, rfl, hrest⟩ | ⟨more, hmore, hrest⟩
    · exact ih hnext.inbound more msg after hrest msg'
    · cases more with
      | nil => exact ih hnext.inbound [] msg after hrest.symm msg'
      | cons effect more =>
        obtain ⟨rfl, rfl⟩ := List.cons_eq_cons.mp hrest
        have hclosed := hwrote msg (by simp [hmore])
        simp only [hclosed, run_closed, List.append_eq, List.append_nil]
        have hrest := hlead msg'
        rw [hmore] at hrest
        cases before with
        | nil => exact hrest
        | cons effect before => exact fun hmem => hrest (by simp [hmem])

variable (hmacSign config) in
theorem serving_answers {phase : Phase} (h : Serving phase) (turn : Turn) :
    InTurn (phase.turn hmacSign config turn).2 ∧ Answers (phase.turn hmacSign config turn).2 := by
  have hturn : InTurn (phase.turn hmacSign config turn).2 := by
    cases phase with
    | looping side peerNodeId => exact inTurn_loop turn.1 side peerNodeId turn.2
    | closed => exact ⟨[], rfl⟩
    | awaitingHandshake addr => exact h.elim
    | awaitingAck addr => exact h.elim
    | awaitingSendAck agent message sender => exact h.elim
    | awaitingReply => exact h.elim
  have hlead := (inbound_turn hmacSign config h.inbound turn).2.1
  exact ⟨hturn, answers_of_leading hlead fun _ _ _ _ => hturn⟩

theorem serving_run {phase : Phase} (h : Serving phase) (turns : List Turn) :
    InTurn (run (Phase.turn hmacSign config) phase turns).2 ∧
      Answers (run (Phase.turn hmacSign config) phase turns).2 := by
  induction turns generalizing phase with
  | nil => exact ⟨⟨[], rfl⟩, fun before _ _ _ heq => by simp at heq⟩
  | cons turn turns ih =>
    obtain ⟨hturn, hanswers⟩ := serving_answers hmacSign config h turn
    obtain ⟨hrest, hlater⟩ := ih (inbound_turn hmacSign config h.inbound turn).1
    rw [run_cons]
    exact ⟨hturn.append hrest, answers_append hanswers hrest hlater⟩

theorem awaiting_answers (addr : SocketAddr) (turn : Turn) :
    Answers ((Phase.awaitingHandshake addr).turn hmacSign config turn).2 := by
  obtain ⟨env, read⟩ := turn
  apply answers_of_leading (leading_handleInbound env addr read)
  intro id request after hhead
  rcases handleInbound_cases hmacSign config env addr read with ⟨e, -, heq⟩ |
    ⟨msg, code, text, e, -, -, heq⟩ |
    ⟨msg, nodeId, nodeName, agents, nonce, authHmac, -, -, -, heq⟩
  · simp [heq] at hhead
  · obtain ⟨rfl, -⟩ : msg = ⟨id, .request request⟩ ∧ _ := by simpa [heq, reject] using hhead
    rw [heq]
    exact inTurn_reject ..
  · obtain rfl : msg = ⟨id, .request request⟩ := by
      rw [heq, admitPeer] at hhead
      split at hhead <;>
        (simp only [List.cons_append, List.cons.injEq, Effect.received.injEq] at hhead
         exact hhead.1)
    rw [heq]
    exact inTurn_admit ..

/-- On an inbound connection nothing has an effect before a handshake of the right
version with a verified signature, from every request on, the handshake included, the
requests are answered in turn, and an answer that does not get out is the last. -/
theorem inbound_gated (hmacSign : Hmac) (config : PeerConfig) (addr : SocketAddr) (turns : List Turn) :
    Always (Gated hmacSign config) (run (Phase.turn hmacSign config) (.awaitingHandshake addr) turns).2 ∧
    Answers (run (Phase.turn hmacSign config) (.awaitingHandshake addr) turns).2 ∧
    Severed (run (Phase.turn hmacSign config) (.awaitingHandshake addr) turns).2 := by
  have hstart : Inbound (.awaitingHandshake addr) := trivial
  refine ⟨(inbound_guarded addr turns).gated, ?_, severed_run hstart turns⟩
  cases turns with
  | nil => exact fun before _ _ _ heq => by simp at heq
  | cons turn turns =>
    obtain ⟨hrest, hlater⟩ := serving_run (inbound_turn hmacSign config hstart turn).1 turns
    rw [run_cons]
    exact answers_append (awaiting_answers addr turn) hrest hlater

end Exchanges

end Clawreform.Wire
