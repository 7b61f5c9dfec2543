import Clawreform.Lib.Run
import Clawreform.Lib.Trace
import Clawreform.Wire.Peer

namespace Clawreform.Wire

open Clawreform.Lib.Text Clawreform.Lib.Run Clawreform.Lib.Store Clawreform.Lib.Trace Clawreform.Types

section Credentials

/-- What a handshake or its answer says of its sender: a handshake connects, an
answer accepts. -/
structure Credential where
  side : Side
  nodeId : Str
  nonce : Str
  authHmac : Str
  deriving DecidableEq

def WireMessage.credential (msg : WireMessage) : Option Credential :=
  match msg.kind with
  | .request (.handshake nodeId _ _ _ nonce authHmac) => some ⟨.connecting, nodeId, nonce, authHmac⟩
  | .response (.handshakeAck nodeId _ _ _ nonce authHmac) => some ⟨.accepting, nodeId, nonce, authHmac⟩
  | .request _ | .response _ | .notification _ => none

def Effect.read : Effect → Option WireMessage
  | .received msg => some msg
  | .dialled _ | .signed _ _ | .localAgents | .agentMessage _ _ _ | .discover _ | .uptime
  | .wrote _ _ | .registry _ | .failed _ | .delivered _ => none

def Effect.spoken : Effect → Option Credential
  | .wrote msg _ => msg.credential
  | .dialled _ | .received _ | .signed _ _ | .localAgents | .agentMessage _ _ _ | .discover _
  | .uptime | .registry _ | .failed _ | .delivered _ => none

/-- The text that is signed. -/
def Effect.text : Effect → Option Str
  | .signed data _ => some data
  | .dialled _ | .received _ | .localAgents | .agentMessage _ _ _ | .discover _ | .uptime
  | .wrote _ _ | .registry _ | .failed _ | .delivered _ => none

/-- What is read off the effects of one connection. -/
def onConn {α : Type} (f : Effect → Option α) (past : List Trace) (n : Str) (c : ConnId) : List α :=
  past.filterMap fun t => if t.node = n ∧ t.conn = c then f t.effect else none

/-- The credential in the first message a connection has read. -/
def heardOn (past : List Trace) (n : Str) (c : ConnId) : Option Credential :=
  (onConn Effect.read past n c).head?.bind WireMessage.credential

/-- The first credential a connection has written. -/
def ownOn (past : List Trace) (n : Str) (c : ConnId) : Option Credential :=
  (onConn Effect.spoken past n c).head?

variable {α : Type} {f : Effect → Option α} {past more : List Trace} {n : Str} {c : ConnId}

theorem onConn_append : onConn f (past ++ more) n c = onConn f past n c ++ onConn f more n c :=
  List.filterMap_append

theorem onConn_tagged (effects : List Effect) :
    onConn f (effects.map (⟨n, c, ·⟩)) n c = effects.filterMap f := by
  simp [onConn, List.filterMap_map]

theorem onConn_other {n' : Str} {c' : ConnId} (h : ¬ (n' = n ∧ c' = c)) (effects : List Effect) :
    onConn f (effects.map (⟨n', c', ·⟩)) n c = [] := by
  simp [onConn, List.filterMap_map, h]

theorem heardOn_append {heard : Credential} (h : heardOn past n c = some heard) :
    heardOn (past ++ more) n c = some heard := by
  obtain ⟨msg, hmsg, hheard⟩ := Option.bind_eq_some_iff.mp h
  rw [heardOn, onConn_append, List.head?_append, hmsg]
  exact hheard

theorem heardOn_mem {heard : Credential} (h : heardOn past n c = some heard) :
    ∃ msg, ⟨n, c, .received msg⟩ ∈ past ∧ msg.credential = some heard := by
  obtain ⟨msg, hmsg, hheard⟩ := Option.bind_eq_some_iff.mp h
  obtain ⟨⟨m, c', effect⟩, ht, heq⟩ := List.mem_filterMap.mp (List.mem_of_head? hmsg)
  split at heq
  · rename_i hplace
    obtain ⟨rfl, rfl⟩ := hplace
    cases effect <;> cases heq
    exact ⟨_, ht, hheard⟩
  · cases heq

theorem ownOn_append {own : Credential} (h : ownOn past n c = some own) :
    ownOn (past ++ more) n c = some own := by
  rw [ownOn] at h
  rw [ownOn, onConn_append, List.head?_append, h]
  rfl

end Credentials

section Agreement

/-- The peer that is registered has itself signed what the connection accepted, in
answer to the nonce this connection sent. -/
def Agrees (past : List Trace) (n : Str) (c : ConnId) (peer : Str) : Prop :=
  ∃ heard own c', heardOn past n c = some heard ∧ ownOn past n c = some own ∧
    ⟨peer, c', .signed (heard.nonce ++ peer) (some own.nonce)⟩ ∈ past

/-- The connection was dialled, and what it heard first was written by a connection
that had first heard its nonce: the answer was not replayed, reflected or put together. -/
def Relayed (past : List Trace) (n : Str) (c : ConnId) : Prop :=
  ∃ heard own m c' asked msg complete, heardOn past n c = some heard ∧ ownOn past n c = some own ∧
    own.side = .connecting ∧ heardOn past m c' = some asked ∧ asked.nonce = own.nonce ∧
    ⟨m, c', .wrote msg complete⟩ ∈ past ∧ msg.credential = some heard

/-- No message carries a nonce before it is drawn. -/
def Fresh (past : List Trace) (t : Trace) : Prop :=
  ∀ own ∈ t.effect.spoken, ∀ t' ∈ past, ∀ msg ∈ t'.effect.read, ∀ cr ∈ msg.credential,
    cr.nonce ≠ own.nonce

def Settled (past : List Trace) (t : Trace) : Prop :=
  ∀ entry, t.effect = .registry (.addPeer entry) →
    (Agrees past t.node t.conn entry.nodeId ↔ Relayed past t.node t.conn)

/-- What the messages of a connection look like in its phase. -/
def Spoken (reads : List WireMessage) (spoken : List Credential) : Phase → Prop
  | .awaitingHandshake _ => reads = [] ∧ spoken = []
  | .awaitingAck _ => reads = [] ∧ ∃ own, spoken.head? = some own ∧ own.side = .connecting
  | .awaitingSendAck _ _ _ | .awaitingReply | .looping _ _ | .closed => True

/-- The peer that is registered agrees. -/
def Authenticated (past : List Trace) (t : Trace) : Prop :=
  ∀ entry, t.effect = .registry (.addPeer entry) → Agrees past t.node t.conn entry.nodeId

instance (past : List Trace) (t : Trace) : Decidable (Fresh past t) :=
  inferInstanceAs (Decidable (∀ own ∈ t.effect.spoken, ∀ t' ∈ past, ∀ msg ∈ t'.effect.read,
    ∀ cr ∈ msg.credential, cr.nonce ≠ own.nonce))

variable (S : Setting)

/-- Nobody but the nodes can sign. -/
def Unforged (past : List Trace) (t : Trace) : Prop :=
  ∀ msg ∈ t.effect.read, ∀ cr ∈ msg.credential,
    hmacVerify S.hmacSign S.sharedSecret (cr.nonce ++ cr.nodeId) cr.authHmac = true →
      ∃ t' ∈ past, t'.effect.text = some (cr.nonce ++ cr.nodeId)

instance (past : List Trace) (t : Trace) : Decidable (Unforged S past t) :=
  inferInstanceAs (Decidable (∀ msg ∈ t.effect.read, ∀ cr ∈ msg.credential,
    hmacVerify S.hmacSign S.sharedSecret (cr.nonce ++ cr.nodeId) cr.authHmac = true →
      ∃ t' ∈ past, t'.effect.text = some (cr.nonce ++ cr.nodeId)))

/-- A signature in answer to a nonce goes out with an answer to the handshake that
was heard first, and answers go out in no other way. -/
structure Faithful (net : Network) (past : List Trace) : Prop where
  unused : ∀ n c, (net n).connections.lookup c = none →
    onConn Effect.read past n c = [] ∧ onConn Effect.spoken past n c = []
  phase : ∀ n c phase, (net n).connections.lookup c = some phase →
    Spoken (onConn Effect.read past n c) (onConn Effect.spoken past n c) phase
  signed : ∀ n c data asked, ⟨n, c, .signed data (some asked)⟩ ∈ past →
    ∃ nonce heard msg complete, heardOn past n c = some heard ∧ heard.nonce = asked ∧
      data = nonce ++ n ∧ ⟨n, c, .wrote msg complete⟩ ∈ past ∧
      msg.credential = some ⟨.accepting, n, nonce, S.hmacSign S.sharedSecret (nonce ++ n)⟩
  wrote : ∀ n c msg complete cr, ⟨n, c, .wrote msg complete⟩ ∈ past → msg.credential = some cr →
    cr.side = .accepting → cr.nodeId = n ∧
      ∃ heard, heardOn past n c = some heard ∧
        ⟨n, c, .signed (cr.nonce ++ n) (some heard.nonce)⟩ ∈ past

end Agreement

section Steps

variable {S : Setting} {net : Network} {past : List Trace} {n : Str} {c : ConnId}

theorem lookup_absorb {result : Phase × List Effect} {n' : Str} {c' : ConnId} :
    ((Function.update net n ((net n).absorb c result).1) n').connections.lookup c' =
      if n' = n ∧ c' = c then some result.1 else (net n').connections.lookup c' := by
  by_cases hn : n' = n
  · subst hn
    rw [Function.update_self, Node.absorb, lookup_insert]
    simp
  · rw [Function.update_of_ne hn, if_neg fun h => hn h.1]

theorem onConn_append_other {α : Type} {f : Effect → Option α} {n' : Str} {c' : ConnId}
    (h : ¬ (n' = n ∧ c' = c)) (effects : List Effect) :
    onConn f (past ++ effects.map (⟨n, c, ·⟩)) n' c' = onConn f past n' c' := by
  have hne : ¬ (n = n' ∧ c = c') := fun he => h ⟨he.1.symm, he.2.symm⟩
  rw [onConn_append, onConn_other hne, List.append_nil]

/-- What a connection has to show for its effects when it comes to a phase. -/
structure Sound (S : Setting) (past : List Trace) (n : Str) (c : ConnId) (phase : Phase)
    (effects : List Effect) : Prop where
  phase : Spoken (onConn Effect.read past n c) (onConn Effect.spoken past n c) phase
  signed : ∀ data asked, .signed data (some asked) ∈ effects →
    ∃ nonce heard msg complete, heardOn past n c = some heard ∧ heard.nonce = asked ∧
      data = nonce ++ n ∧ ⟨n, c, .wrote msg complete⟩ ∈ past ∧
      msg.credential = some ⟨.accepting, n, nonce, S.hmacSign S.sharedSecret (nonce ++ n)⟩
  wrote : ∀ msg complete cr, .wrote msg complete ∈ effects → msg.credential = some cr →
    cr.side = .accepting → cr.nodeId = n ∧
      ∃ heard, heardOn past n c = some heard ∧
        ⟨n, c, .signed (cr.nonce ++ n) (some heard.nonce)⟩ ∈ past

theorem Faithful.absorb (h : Faithful S net past) {result : Phase × List Effect}
    (hsound : Sound S (past ++ result.2.map (⟨n, c, ·⟩)) n c result.1 result.2) :
    Faithful S (Function.update net n ((net n).absorb c result).1)
      (past ++ result.2.map (⟨n, c, ·⟩)) where
  unused n' c' hlookup := by
    rw [lookup_absorb] at hlookup
    split at hlookup
    · cases hlookup
    · rename_i hne
      rw [onConn_append_other hne, onConn_append_other hne]
      exact h.unused n' c' hlookup
  phase n' c' phase hlookup := by
    rw [lookup_absorb] at hlookup
    split at hlookup
    · rename_i heq
      obtain ⟨rfl, rfl⟩ := heq
      cases hlookup
      exact hsound.phase
    · rename_i hne
      rw [onConn_append_other hne, onConn_append_other hne]
      exact h.phase n' c' phase hlookup
  signed n' c' data asked hmem := by
    rcases List.mem_append.mp hmem with hold | hnew
    · obtain ⟨nonce, heard, msg, complete, hheard, hnonce, hdata, hwrote, hmsg⟩ :=
        h.signed n' c' data asked hold
      exact ⟨nonce, heard, msg, complete, heardOn_append hheard, hnonce, hdata,
        List.mem_append_left _ hwrote, hmsg⟩
    · obtain ⟨effect, heffect, heq⟩ := List.mem_map.mp hnew
      cases heq
      exact hsound.signed data asked heffect
  wrote n' c' msg complete cr hmem hmsg hside := by
    rcases List.mem_append.mp hmem with hold | hnew
    · obtain ⟨hid, heard, hheard, hsigned⟩ := h.wrote n' c' msg complete cr hold hmsg hside
      exact ⟨hid, heard, heardOn_append hheard, List.mem_append_left _ hsigned⟩
    · obtain ⟨effect, heffect, heq⟩ := List.mem_map.mp hnew
      cases heq
      exact hsound.wrote msg complete cr heffect hmsg hside

/-- The effect answers no handshake and registers nobody. -/
@[grind =] def Effect.Quiet : Effect → Prop
  | .signed _ answering => answering = none
  | .wrote msg _ => ∀ cr, msg.credential = some cr → cr.side = .connecting
  | .registry op => ∀ entry, op ≠ .addPeer entry
  | .dialled _ | .received _ | .localAgents | .agentMessage _ _ _ | .discover _ | .uptime
  | .failed _ | .delivered _ => True

/-- What a step has to show when its effects are behind what happened before. -/
structure Proper (S : Setting) (past : List Trace) (n : Str) (c : ConnId)
    (result : Phase × List Effect) : Prop where
  sound : Sound S (past ++ result.2.map (⟨n, c, ·⟩)) n c result.1 result.2
  settled : Always Fresh (past ++ result.2.map (⟨n, c, ·⟩)) →
    Always (fun before t => Settled (past ++ before) t) (result.2.map (⟨n, c, ·⟩))

theorem settled_of_unregistered {effects : List Effect}
    (hnone : ∀ entry, Effect.registry (.addPeer entry) ∉ effects) :
    Always (fun before t => Settled (past ++ before) t) (effects.map (⟨n, c, ·⟩)) := by
  intro before t rest heq entry hentry
  have hmem : t ∈ effects.map (⟨n, c, ·⟩ : Effect → Trace) := by simp [heq]
  obtain ⟨effect, heffect, rfl⟩ := List.mem_map.mp hmem
  obtain rfl : effect = .registry (.addPeer entry) := hentry
  exact absurd heffect (hnone entry)

theorem settled_concat (effects : List Effect) {entry : PeerEntry}
    (hnone : ∀ entry, Effect.registry (.addPeer entry) ∉ effects)
    (h : Agrees (past ++ effects.map (⟨n, c, ·⟩)) n c entry.nodeId ↔
      Relayed (past ++ effects.map (⟨n, c, ·⟩)) n c) :
    Always (fun before t => Settled (past ++ before) t)
      ((effects ++ [Effect.registry (.addPeer entry)]).map (⟨n, c, ·⟩)) := by
  rw [List.map_append, List.map_singleton, always_concat]
  refine ⟨settled_of_unregistered hnone, fun entry' hentry => ?_⟩
  cases hentry
  exact h

theorem proper_of_quiet {result : Phase × List Effect}
    (hphase : Spoken (onConn Effect.read past n c ++ result.2.filterMap Effect.read)
      (onConn Effect.spoken past n c ++ result.2.filterMap Effect.spoken) result.1)
    (hquiet : ∀ effect ∈ result.2, effect.Quiet) : Proper S past n c result where
  sound :=
    { phase := by rwa [onConn_append, onConn_append, onConn_tagged, onConn_tagged]
      signed := fun data asked hmem => by cases hquiet _ hmem
      wrote := fun msg complete cr hmem hmsg hside => by
        cases hside.symm.trans (hquiet _ hmem cr hmsg) }
  settled _ := settled_of_unregistered fun entry hmem => hquiet _ hmem entry rfl

theorem proper_openWith {env : Surroundings} {addr : SocketAddr} {next : Phase}
    (hnext : ∀ own : Credential, own.side = .connecting → Spoken [] [own] next)
    (hreads : onConn Effect.read past n c = []) (hspoken : onConn Effect.spoken past n c = []) :
    Proper S past n c (openWith S.hmacSign (S.config n) env addr next) := by
  rw [openWith]
  split
  · apply proper_of_quiet
    · rw [hreads, hspoken]
      exact hnext _ rfl
    · simp [Effect.Quiet, handshake, WireMessage.credential]
  · apply proper_of_quiet
    · trivial
    · simp [Effect.Quiet, handshake, WireMessage.credential]

theorem proper_later {phase : Phase} {effects : List Effect}
    (hphase : ∀ reads spoken, Spoken reads spoken phase)
    (hquiet : ∀ effect ∈ effects, effect.Quiet) : Proper S past n c (phase, effects) :=
  proper_of_quiet (hphase _ _) hquiet

theorem proper_sendToPeer {env : Surroundings} {peers : PeerRegistry} {nodeId agent message : Str}
    {sender : Option Str} (hreads : onConn Effect.read past n c = [])
    (hspoken : onConn Effect.spoken past n c = []) :
    Proper S past n c
      (sendToPeer S.hmacSign (S.config n) env peers nodeId agent message sender) := by
  rw [sendToPeer]
  split
  · exact proper_later (fun _ _ => trivial) (by simp [Effect.Quiet])
  · exact proper_openWith (fun _ _ => trivial) hreads hspoken

theorem proper_readSendAck {env : Surroundings} {agent message : Str} {sender : Option Str}
    (read : Except WireError WireMessage) :
    Proper S past n c (readSendAck S.hmacSign (S.config n) env agent message sender read) := by
  cases read with
  | error e => exact proper_later (fun _ _ => trivial) (by simp [Effect.Quiet])
  | ok msg =>
    simp only [readSendAck]
    split
    · exact proper_later (fun _ _ => trivial) (by simp [Effect.Quiet])
    · split
      · exact proper_later (fun _ _ => trivial) (by simp [Effect.Quiet, WireMessage.credential])
      · exact proper_later (fun _ _ => trivial) (by simp [Effect.Quiet, WireMessage.credential])

theorem proper_readReply (read : Except WireError WireMessage) :
    Proper S past n c (readReply read) := by
  cases read with
  | error e => exact proper_later (fun _ _ => trivial) (by simp [Effect.Quiet])
  | ok msg =>
    simp only [readReply]
    split
    all_goals exact proper_later (fun _ _ => trivial) (by simp [Effect.Quiet])

/-- The answers of the loop are no answers to a handshake. -/
theorem quiet_handleRequestInLoop (env : Surroundings) (msg : WireMessage) (request : WireRequest) :
    ∀ effect ∈ .received msg :: (handleRequestInLoop env request).1 ++
      [.wrote ⟨msg.id, .response (handleRequestInLoop env request).2⟩ env.writes], effect.Quiet := by
  cases request with
  | handshake => simp [handleRequestInLoop, Effect.Quiet, WireMessage.credential]
  | ping => simp [handleRequestInLoop, Effect.Quiet, WireMessage.credential]
  | discover query => simp [handleRequestInLoop, Effect.Quiet, WireMessage.credential]
  | agentMessage agent message sender =>
    cases henv : env.agentReply <;>
      simp [handleRequestInLoop, Effect.Quiet, WireMessage.credential, henv]

theorem quiet_handleNotification (peer : Str) (notif : WireNotification) :
    (Effect.registry (handleNotification peer notif)).Quiet := by
  intro entry
  cases notif <;> simp [handleNotification]

theorem proper_connectionLoop {env : Surroundings} {side : Side} {peer : Str}
    (read : Except WireError WireMessage) : Proper S past n c (connectionLoop env side peer read) := by
  cases read with
  | error e => exact proper_later (fun _ _ => trivial) (by simp [Effect.Quiet])
  | ok msg =>
    simp only [connectionLoop]
    split
    · have hnotif := quiet_handleNotification peer
      exact proper_later (fun _ _ => trivial) (by simp [Effect.Quiet] at hnotif ⊢; exact hnotif _)
    · rename_i request _
      have hquiet := quiet_handleRequestInLoop env msg request
      split
      · exact proper_later (fun _ _ => trivial) hquiet
      · refine proper_later (fun _ _ => trivial) fun effect heffect => ?_
        rcases List.mem_append.mp heffect with hanswer | hmark
        · exact hquiet effect hanswer
        · obtain rfl := List.mem_singleton.mp hmark
          exact nofun
    · exact proper_later (fun _ _ => trivial) (by simp [Effect.Quiet])

/-- The signature that was accepted answers the own nonce exactly when the answer was
written by the connection that heard it. -/
theorem agrees_iff_relayed (h : Faithful S net past) {own : Credential} {msg : WireMessage}
    {nodeId nodeName nonce authHmac : Str} {version : UInt32} {agents : List RemoteAgentInfo}
    (hreads : onConn Effect.read past n c = []) (hown : ownOn past n c = some own)
    (hside : own.side = .connecting)
    (hkind : msg.kind = .response (.handshakeAck nodeId nodeName version agents nonce authHmac))
    (hverify : hmacVerify S.hmacSign S.sharedSecret (nonce ++ nodeId) authHmac = true) :
    Agrees (past ++ [⟨n, c, .received msg⟩]) n c nodeId ↔
      Relayed (past ++ [⟨n, c, .received msg⟩]) n c := by
  have hheard : heardOn (past ++ [⟨n, c, .received msg⟩]) n c =
      some ⟨.accepting, nodeId, nonce, authHmac⟩ := by
    rw [heardOn, onConn_append, hreads]
    simp [onConn, Effect.read, WireMessage.credential, hkind]
  have hown' : ownOn (past ++ [⟨n, c, .received msg⟩]) n c = some own := ownOn_append hown
  constructor
  · rintro ⟨heard, own', c', hheard', hown'', hsigned⟩
    rw [hheard] at hheard'
    rw [hown'] at hown''
    cases hheard'
    cases hown''
    have hpast : ⟨nodeId, c', .signed (nonce ++ nodeId) (some own.nonce)⟩ ∈ past := by
      simpa using hsigned
    obtain ⟨nonce', asked, answer, complete, hasked, hnonce, hdata, hwrote, hanswer⟩ :=
      h.signed _ _ _ _ hpast
    obtain rfl : nonce = nonce' := List.append_cancel_right hdata
    have hhmac : S.hmacSign S.sharedSecret (nonce ++ nodeId) = authHmac := by
      simpa [hmacVerify] using hverify
    exact ⟨_, own, nodeId, c', asked, answer, complete, hheard, hown', hside,
      heardOn_append hasked, hnonce, List.mem_append_left _ hwrote, hhmac ▸ hanswer⟩
  · rintro ⟨heard, own', m, c', asked, answer, complete, hheard', hown'', -, hasked, hnonce,
      hwrote, hanswer⟩
    rw [hheard] at hheard'
    rw [hown'] at hown''
    cases hheard'
    cases hown''
    have hpast : ⟨m, c', .wrote answer complete⟩ ∈ past := by simpa using hwrote
    obtain ⟨rfl, asked', hasked', hsigned⟩ := h.wrote _ _ _ _ _ hpast hanswer rfl
    rw [heardOn_append hasked'] at hasked
    cases hasked
    exact ⟨_, own, c', hheard, hown', List.mem_append_left _ (hnonce ▸ hsigned)⟩

theorem proper_readAck (h : Faithful S net past) {env : Surroundings} {addr : SocketAddr}
    {own : Credential} (hreads : onConn Effect.read past n c = []) (hown : ownOn past n c = some own)
    (hside : own.side = .connecting) (read : Except WireError WireMessage) :
    Proper S past n c (readAck S.hmacSign (S.config n) env addr read) := by
  cases read with
  | error e => exact proper_later (fun _ _ => trivial) (by simp [Effect.Quiet])
  | ok msg =>
    simp only [readAck]
    split
    · exact proper_later (fun _ _ => trivial) (by simp [Effect.Quiet])
    · rename_i nodeId nodeName version agents hack
      obtain ⟨nonce, authHmac, hkind, hverify⟩ := checkAck_ok hack
      have hagrees := agrees_iff_relayed h hreads hown hside hkind hverify
      exact ⟨⟨trivial, by simp, by simp⟩,
        fun _ => settled_concat [.received msg] (by simp) hagrees⟩

/-- What happens when a handshake is answered. -/
def answered (S : Setting) (n : Str) (env : Surroundings) (msg : WireMessage) (nonce : Str) :
    List Effect :=
  [.received msg, .signed (authData (S.config n) env.nonce) (some nonce), .localAgents,
    .wrote (handshakeAck S.hmacSign (S.config n) env msg.id) env.writes]

section Admission

variable {env : Surroundings} {msg : WireMessage} {nodeId nodeName nonce authHmac : Str}
  {version : UInt32} {agents : List RemoteAgentInfo}
  (hkind : msg.kind = .request (.handshake nodeId nodeName version agents nonce authHmac))

include hkind

theorem sound_answered (hreads : onConn Effect.read past n c = []) {phase : Phase} {last : Effect}
    (hphase : ∀ reads spoken, Spoken reads spoken phase)
    (hsigned : ∀ data asked, .signed data asked ≠ last)
    (hwrote : ∀ msg complete, .wrote msg complete ≠ last) :
    Sound S (past ++ (answered S n env msg nonce ++ [last]).map (⟨n, c, ·⟩)) n c phase
      (answered S n env msg nonce ++ [last]) := by
  have hheard : heardOn (past ++ (answered S n env msg nonce ++ [last]).map (⟨n, c, ·⟩)) n c =
      some ⟨.connecting, nodeId, nonce, authHmac⟩ := by
    rw [heardOn, onConn_append, hreads, onConn_tagged]
    simp [answered, Effect.read, WireMessage.credential, hkind]
  constructor
  · exact hphase _ _
  · intro data asked hmem
    obtain ⟨rfl, rfl⟩ : data = authData (S.config n) env.nonce ∧ asked = nonce := by
      simpa [answered, hsigned] using hmem
    exact ⟨_, _, handshakeAck S.hmacSign (S.config n) env msg.id, env.writes, hheard, rfl, rfl,
      by simp [answered], rfl⟩
  · intro msg' complete cr hmem hmsg' hside
    obtain ⟨rfl, rfl⟩ : msg' = handshakeAck S.hmacSign (S.config n) env msg.id ∧
        complete = env.writes := by
      simpa [answered, hwrote] using hmem
    cases hmsg'
    exact ⟨rfl, _, hheard, by simp [answered, authData, Setting.config]⟩

/-- A nonce that was just drawn has not been answered. -/
theorem not_agrees_answered (h : Faithful S net past) {peer : Str}
    (hspoken : onConn Effect.spoken past n c = [])
    (hfresh : Always Fresh (past ++ (answered S n env msg nonce).map (⟨n, c, ·⟩))) :
    ¬ Agrees (past ++ (answered S n env msg nonce).map (⟨n, c, ·⟩)) n c peer := by
  rintro ⟨heard, own, c', -, hown, hsigned⟩
  rw [ownOn, onConn_append, hspoken, onConn_tagged] at hown
  cases hown
  -- No message before the answer carries the answer's nonce, not even the one it answers.
  have hunheard : ∀ n' c' msg' cr, ⟨n', c', .received msg'⟩ ∈ past ∨ msg' = msg →
      msg'.credential = some cr → cr.nonce ≠ env.nonce.toStr := by
    intro n' c' msg' cr hreceived hcr
    have hf := hfresh _ _ [] (List.append_assoc past [⟨n, c, .received msg⟩, _, _] [_]).symm
    rcases hreceived with hpast | rfl
    · exact hf _ rfl _ (List.mem_append_left _ hpast) msg' rfl cr hcr
    · exact hf _ rfl _ (List.mem_append_right _ List.mem_cons_self) msg' rfl cr hcr
  rcases List.mem_append.mp hsigned with hpast | hnew
  · obtain ⟨_, asked, _, _, hasked, hnonce, -, -, -⟩ := h.signed _ _ _ _ hpast
    obtain ⟨msg', hreceived, hcr⟩ := heardOn_mem hasked
    exact hunheard _ _ msg' asked (.inl hreceived) hcr hnonce
  · obtain rfl : nonce = env.nonce.toStr := by
      simp [answered] at hnew
      tauto
    exact hunheard n c msg ⟨.connecting, nodeId, env.nonce.toStr, authHmac⟩ (.inr rfl)
      (by simp [WireMessage.credential, hkind]) rfl

theorem proper_admit (h : Faithful S net past) {entry : PeerEntry}
    (hreads : onConn Effect.read past n c = []) (hspoken : onConn Effect.spoken past n c = []) :
    Proper S past n c (admitPeer S.hmacSign (S.config n) env msg nonce entry) := by
  rw [admitPeer]
  split
  · refine ⟨sound_answered hkind hreads (fun _ _ => trivial) (by simp) (by simp), fun hfresh => ?_⟩
    rw [List.map_append, ← List.append_assoc] at hfresh
    apply settled_concat (answered S n env msg nonce) (by simp [answered])
    refine iff_of_false (not_agrees_answered hkind h hspoken hfresh.left) ?_
    rintro ⟨heard, own, m, c', asked, answer, complete, -, hown, hside, -⟩
    rw [ownOn, onConn_append, hspoken, onConn_tagged] at hown
    cases hown
    cases hside
  · refine ⟨sound_answered hkind hreads (fun _ _ => trivial) (by simp) (by simp), fun _ => ?_⟩
    exact settled_of_unregistered (by simp)

end Admission

theorem proper_handleInbound (h : Faithful S net past) {env : Surroundings} {addr : SocketAddr}
    (hreads : onConn Effect.read past n c = []) (hspoken : onConn Effect.spoken past n c = [])
    (read : Except WireError WireMessage) :
    Proper S past n c (handleInbound S.hmacSign (S.config n) env addr read) := by
  rcases handleInbound_cases S.hmacSign (S.config n) env addr read with ⟨e, -, heq⟩ |
    ⟨msg, code, text, e, -, -, heq⟩ |
    ⟨msg, nodeId, nodeName, agents, nonce, authHmac, -, hkind, -, heq⟩
  · rw [heq]
    exact proper_later (fun _ _ => trivial) (by simp [Effect.Quiet])
  · rw [heq]
    exact proper_later (fun _ _ => trivial) (by simp [Effect.Quiet, WireMessage.credential])
  · rw [heq]
    exact proper_admit hkind h hreads hspoken

/-- Whatever a node does next is proper. -/
theorem act_proper (h : Faithful S net past) (n : Str) (c : ConnId) (env : Surroundings)
    (action : Action) :
    (∃ result, (net n).act S.hmacSign (S.config n) env c action = (net n).absorb c result ∧
      Proper S past n c result) ∨
    (net n).act S.hmacSign (S.config n) env c action = (net n, []) := by
  cases hlookup : (net n).connections.lookup c with
  | none =>
    obtain ⟨hreads, hspoken⟩ := h.unused n c hlookup
    cases action <;> simp only [Node.act, hlookup]
    case accept addr =>
      exact .inl ⟨_, rfl, proper_of_quiet (by simp [Spoken, hreads, hspoken]) (by simp)⟩
    case connect addr =>
      refine .inl ⟨_, rfl, proper_openWith (fun own hside => ?_) hreads hspoken⟩
      exact ⟨rfl, own, rfl, hside⟩
    case send nodeId agent message sender =>
      exact .inl ⟨_, rfl, proper_sendToPeer hreads hspoken⟩
    case read result => exact .inr trivial
  | some phase =>
    have hphase := h.phase n c phase hlookup
    cases action <;> simp only [Node.act, hlookup]
    case read result =>
      refine .inl ⟨_, rfl, ?_⟩
      cases phase with
      | awaitingHandshake addr => exact proper_handleInbound h hphase.1 hphase.2 result
      | awaitingAck addr =>
        obtain ⟨hreads, own, hown, hside⟩ := hphase
        exact proper_readAck h hreads hown hside result
      | awaitingSendAck agent message sender => exact proper_readSendAck result
      | awaitingReply => exact proper_readReply result
      | looping side peer => exact proper_connectionLoop result
      | closed => exact proper_later (fun _ _ => trivial) (by simp)
    all_goals exact .inr trivial

theorem step_proper (h : Faithful S net past) (move : Move) :
    Faithful S (net.step S move).1 (past ++ (net.step S move).2) ∧
    (Always Fresh (past ++ (net.step S move).2) →
      Always (fun before t => Settled (past ++ before) t) (net.step S move).2) := by
  rw [Network.step]
  rcases act_proper h move.node move.conn move.env move.action with ⟨result, heq, hproper⟩ | heq
  · rw [heq]
    exact ⟨h.absorb hproper.sound, hproper.settled⟩
  · simp only [heq, Function.update_eq_self, List.map_nil, List.append_nil]
    exact ⟨h, fun _ => always_nil⟩

end Steps

section Runs

variable (S : Setting)

theorem new_faithful : Faithful S Network.new [] where
  unused _ _ _ := ⟨rfl, rfl⟩
  phase n c phase hlookup := by simp [Network.new] at hlookup
  signed := by simp
  wrote := by simp

theorem run_proper (moves : List Move) :
    Faithful S (run (Network.step S) Network.new moves).1 (run (Network.step S) Network.new moves).2 ∧
    (Always Fresh (run (Network.step S) Network.new moves).2 →
      Always Settled (run (Network.step S) Network.new moves).2) := by
  have hstep : ∀ net past move, (Faithful S net past ∧ (Always Fresh past → Always Settled past)) →
      Faithful S (net.step S move).1 (past ++ (net.step S move).2) ∧
      (Always Fresh (past ++ (net.step S move).2) →
        Always Settled (past ++ (net.step S move).2)) := by
    rintro net past move ⟨hfaithful, hsettled⟩
    obtain ⟨hnext, hnew⟩ := step_proper hfaithful move
    exact ⟨hnext, fun hfresh => always_append.mpr ⟨hsettled hfresh.left, hnew hfresh⟩⟩
  exact run_invariant (Network.step S) hstep ⟨new_faithful S, fun _ => always_nil⟩ moves

/-- Where nonces are fresh, a peer that a node registers has itself signed what the
node accepted, in answer to the node's nonce, if and only if the node dialled and what
it heard was written by a connection that had heard its nonce. -/
theorem registered_agrees_iff (moves : List Move)
    (hfresh : Always Fresh (run (Network.step S) Network.new moves).2) :
    Always Settled (run (Network.step S) Network.new moves).2 :=
  (run_proper S moves).2 hfresh

def drawing (nonce : Uuid) : Surroundings := { quietly with nonce := nonce }

def handshakeOne : WireMessage :=
  handshake plainSetting.hmacSign (plainSetting.config nodeOne) (drawing 1)

def answerTwo : WireMessage :=
  handshakeAck plainSetting.hmacSign (plainSetting.config nodeTwo) (drawing 2) "m1".toList

/-- The first node dials and the second answers. -/
def greeted : List Move :=
  [⟨nodeOne, 0, .connect ⟨"10.0.0.2".toList, 4200⟩, drawing 1⟩,
   ⟨nodeTwo, 0, .accept ⟨"10.0.0.1".toList, 50123⟩, drawing 2⟩,
   ⟨nodeTwo, 0, .read (.ok handshakeOne), drawing 2⟩]

theorem registered_agrees_relayed :
    Always Fresh (run (Network.step plainSetting) Network.new
      (greeted ++ [⟨nodeOne, 0, .read (.ok answerTwo), drawing 3⟩])).2 ∧
    Always Settled (run (Network.step plainSetting) Network.new
      (greeted ++ [⟨nodeOne, 0, .read (.ok answerTwo), drawing 3⟩])).2 :=
  ⟨by decide, registered_agrees_iff plainSetting _ (by decide)⟩

/-- The answer comes to the next connection that the first node dials. -/
def replayed : List Move :=
  greeted ++ [⟨nodeOne, 1, .connect ⟨"10.0.0.2".toList, 4200⟩, drawing 3⟩,
    ⟨nodeOne, 1, .read (.ok answerTwo), drawing 3⟩]

/-- The nonces are fresh and nothing is forged, and the second node is registered
without an answer to the nonce. -/
theorem replayed_not_authenticated :
    Always Fresh (run (Network.step plainSetting) Network.new replayed).2 ∧
    Always (Unforged plainSetting) (run (Network.step plainSetting) Network.new replayed).2 ∧
    ¬ Always Authenticated (run (Network.step plainSetting) Network.new replayed).2 := by
  refine ⟨by decide, by decide, fun h => ?_⟩
  have hlast : (run (Network.step plainSetting) Network.new replayed).2 =
      (run (Network.step plainSetting) Network.new replayed).2.dropLast ++
        [⟨nodeOne, 1, .registry (.addPeer
          ⟨nodeTwo, nodeTwo, ⟨"10.0.0.2".toList, 4200⟩, [], .connected, 0, 1⟩)⟩] := by decide
  obtain ⟨heard, own, c', -, hown, hsigned⟩ := h _ _ [] hlast _ rfl
  have hnonce : (ownOn (run (Network.step plainSetting) Network.new replayed).2.dropLast
      nodeOne 1).map (·.nonce) = some (Uuid.toStr 3) := by decide
  have hunanswered : ∀ t ∈ (run (Network.step plainSetting) Network.new replayed).2.dropLast,
      ∀ data ∈ t.effect.text, t.effect ≠ .signed data (some (Uuid.toStr 3)) := by decide
  rw [hown, Option.map_some] at hnonce
  rw [hnonce] at hsigned
  exact hunanswered _ hsigned _ rfl rfl

end Runs

end Clawreform.Wire
