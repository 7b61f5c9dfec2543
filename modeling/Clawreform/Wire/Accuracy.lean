import Clawreform.Lib.Run
import Clawreform.Wire.Peer

namespace Clawreform.Wire

open Clawreform.Lib.Text Clawreform.Lib.Run Clawreform.Lib.Store Clawreform.Types

section Standing

/-- What a registry says of a peer's connection. -/
def standing (peers : PeerRegistry) (peer : Str) : Option (PeerState × SocketAddr) :=
  (peers.lookup peer).map fun entry => (entry.state, entry.address)

variable {peers : PeerRegistry} {peer nodeId : Str}

theorem standing_addPeer (entry : PeerEntry) :
    standing (addPeer entry peers) peer =
      if peer = entry.nodeId then some (entry.state, entry.address) else standing peers peer := by
  rw [standing, addPeer, lookup_insert]
  split <;> rfl

theorem standing_markDisconnected :
    standing (markDisconnected nodeId peers) peer =
      if peer = nodeId then (standing peers peer).map fun s => (.disconnected, s.2)
      else standing peers peer := by
  rw [standing, markDisconnected, lookup_adjust]
  split
  · cases h : peers.lookup peer <;> simp [standing, h]
  · rfl

/-- A change of the agents of a peer leaves everything as it stands. -/
theorem standing_adjust {f : PeerEntry → PeerEntry}
    (hf : ∀ entry, (f entry).state = entry.state ∧ (f entry).address = entry.address) :
    standing (adjust nodeId f peers) peer = standing peers peer := by
  rw [standing, lookup_adjust]
  split
  · cases h : peers.lookup peer <;> simp [standing, h, hf]
  · rfl

end Standing

section Accuracy

variable (listens : Str → SocketAddr → Prop) (shortLived : ConnId → Bool)

/-- A connection with the peer is open that was not made for one message. -/
def LongLived (short : Bool) (peer : Str) : Phase → Prop
  | .looping side peerNodeId => peerNodeId = peer ∧ (side = .connecting ∨ short = false)
  | .awaitingHandshake _ | .awaitingAck _ | .awaitingSendAck _ _ _ | .awaitingReply | .closed => False

def Held (node : Node) (peer : Str) : Prop :=
  ∃ conn phase, node.connections.lookup conn = some phase ∧ LongLived (shortLived conn) peer phase

def HeldElsewhere (node : Node) (conn : ConnId) (peer : Str) : Prop :=
  ∃ other phase, other ≠ conn ∧ node.connections.lookup other = some phase ∧
    LongLived (shortLived other) peer phase

/-- The peer is listed as connected exactly while a long-lived connection with it is
open, and under an address at which it listens. -/
structure AccurateAt (node : Node) (peer : Str) : Prop where
  connected : (∃ entry, node.registry.lookup peer = some entry ∧ entry.state = .connected) ↔
    Held shortLived node peer
  address : ∀ entry, node.registry.lookup peer = some entry → listens peer entry.address

def Accurate (node : Node) : Prop := ∀ peer, AccurateAt listens shortLived node peer

variable {listens shortLived} {node node' : Node} {conn : ConnId} {peer : Str}

theorem accurateAt_iff :
    AccurateAt listens shortLived node peer ↔
      ((∃ addr, standing node.registry peer = some (.connected, addr)) ↔ Held shortLived node peer) ∧
      ∀ state addr, standing node.registry peer = some (state, addr) → listens peer addr := by
  have hconnected : (∃ entry, node.registry.lookup peer = some entry ∧ entry.state = .connected) ↔
      ∃ addr, standing node.registry peer = some (.connected, addr) := by
    simp [standing]
  have haddress : (∀ entry, node.registry.lookup peer = some entry → listens peer entry.address) ↔
      ∀ state addr, standing node.registry peer = some (state, addr) → listens peer addr := by
    simp only [standing, Option.map_eq_some_iff, Prod.mk.injEq]
    exact ⟨fun h state addr ⟨entry, hentry, _, haddr⟩ => haddr ▸ h entry hentry,
      fun h entry hentry => h _ _ ⟨entry, hentry, rfl, rfl⟩⟩
  rw [← hconnected, ← haddress]
  exact ⟨fun h => ⟨h.connected, h.address⟩, fun h => ⟨h.1, h.2⟩⟩

theorem held_iff (conn : ConnId) :
    Held shortLived node peer ↔
      (∃ phase, node.connections.lookup conn = some phase ∧ LongLived (shortLived conn) peer phase) ∨
      HeldElsewhere shortLived node conn peer := by
  constructor
  · rintro ⟨other, phase, hphase, hlong⟩
    by_cases h : other = conn
    · subst h
      exact .inl ⟨phase, hphase, hlong⟩
    · exact .inr ⟨other, phase, h, hphase, hlong⟩
  · rintro (⟨phase, hphase, hlong⟩ | ⟨other, phase, -, hphase, hlong⟩)
    · exact ⟨conn, phase, hphase, hlong⟩
    · exact ⟨other, phase, hphase, hlong⟩

theorem held_absorb (result : Phase × List Effect) :
    Held shortLived (node.absorb conn result).1 peer ↔
      LongLived (shortLived conn) peer result.1 ∨ HeldElsewhere shortLived node conn peer := by
  have hlookup : ∀ other, (node.absorb conn result).1.connections.lookup other =
      if other = conn then some result.1 else node.connections.lookup other :=
    fun other => lookup_insert other conn result.1 node.connections
  rw [held_iff conn]
  apply or_congr
  · simp [hlookup]
  · constructor
    · rintro ⟨other, phase, hne, hphase, hlong⟩
      rw [hlookup, if_neg hne] at hphase
      exact ⟨other, phase, hne, hphase, hlong⟩
    · rintro ⟨other, phase, hne, hphase, hlong⟩
      exact ⟨other, phase, hne, by rwa [hlookup, if_neg hne], hlong⟩

theorem accurateAt_congr (hstanding : standing node'.registry peer = standing node.registry peer)
    (hheld : Held shortLived node' peer ↔ Held shortLived node peer) :
    AccurateAt listens shortLived node' peer ↔ AccurateAt listens shortLived node peer := by
  rw [accurateAt_iff, accurateAt_iff, hstanding, hheld]

/-- Where only one peer is concerned, accuracy is decided there. -/
theorem accurate_iff_at (h : Accurate listens shortLived node)
    (hothers : ∀ p, p ≠ peer → (AccurateAt listens shortLived node' p ↔
      AccurateAt listens shortLived node p)) :
    Accurate listens shortLived node' ↔ AccurateAt listens shortLived node' peer := by
  refine ⟨fun hall => hall peer, fun hat p => ?_⟩
  by_cases hp : p = peer
  · exact hp ▸ hat
  · exact (hothers p hp).mpr (h p)

section Absorb

variable {old : Phase} {result : Phase × List Effect}

/-- A turn that opens and ends nothing. -/
theorem accurate_absorb_quiet (h : Accurate listens shortLived node)
    (hphase : ∀ p, LongLived (shortLived conn) p result.1 ↔
      ∃ phase, node.connections.lookup conn = some phase ∧ LongLived (shortLived conn) p phase)
    (hregistry : ∀ p, standing (node.absorb conn result).1.registry p = standing node.registry p) :
    Accurate listens shortLived (node.absorb conn result).1 := by
  intro p
  have hheld : Held shortLived (node.absorb conn result).1 p ↔ Held shortLived node p := by
    rw [held_absorb, hphase, ← held_iff]
  exact (accurateAt_congr (hregistry p) hheld).mpr (h p)

/-- A turn of a connection that is not in the loop, before and after. -/
theorem accurate_absorb_idle (h : Accurate listens shortLived node)
    (hold : ∀ phase, node.connections.lookup conn = some phase → ∀ p, ¬ LongLived (shortLived conn) p phase)
    (hphase : ∀ p, ¬ LongLived (shortLived conn) p result.1)
    (hregistry : ∀ p, standing (node.absorb conn result).1.registry p = standing node.registry p) :
    Accurate listens shortLived (node.absorb conn result).1 :=
  accurate_absorb_quiet h (fun p => iff_of_false (hphase p)
    fun ⟨phase, hlookup, hlong⟩ => hold phase hlookup p hlong) hregistry

/-- A turn that completes a handshake. -/
theorem accurate_absorb_open (h : Accurate listens shortLived node)
    (hold : node.connections.lookup conn = some old) (hawaiting : ∀ p, ¬ LongLived (shortLived conn) p old)
    {side : Side} {entry : PeerEntry} (hphase : result.1 = .looping side entry.nodeId)
    (hregistry : (node.absorb conn result).1.registry = addPeer entry node.registry)
    (hstate : entry.state = .connected) :
    Accurate listens shortLived (node.absorb conn result).1 ↔
      listens entry.nodeId entry.address ∧
      (side = .connecting ∨ shortLived conn = false ∨ Held shortLived node entry.nodeId) := by
  have helse : ∀ p, Held shortLived node p ↔ HeldElsewhere shortLived node conn p := by
    intro p
    rw [held_iff conn, or_iff_right]
    rintro ⟨phase, hlookup, hlong⟩
    rw [hold] at hlookup
    cases hlookup
    exact hawaiting p hlong
  have hheld : ∀ p, Held shortLived (node.absorb conn result).1 p ↔
      (entry.nodeId = p ∧ (side = .connecting ∨ shortLived conn = false)) ∨ Held shortLived node p := by
    intro p
    rw [held_absorb, hphase, helse]
    rfl
  have hothers : ∀ p, p ≠ entry.nodeId →
      (AccurateAt listens shortLived (node.absorb conn result).1 p ↔ AccurateAt listens shortLived node p) := by
    intro p hp
    apply accurateAt_congr
    · rw [hregistry, standing_addPeer, if_neg hp]
    · rw [hheld, or_iff_right]
      exact fun hpeer => hp hpeer.1.symm
  rw [accurate_iff_at h hothers, accurateAt_iff, hregistry, standing_addPeer, if_pos rfl, hstate, hheld]
  simp [or_assoc, and_comm]

/-- A turn in which the peer is marked as disconnected. -/
theorem accurate_absorb_mark (h : Accurate listens shortLived node) {side : Side}
    (hold : node.connections.lookup conn = some (.looping side peer))
    (hphase : result.1 = .closed ∨ result.1 = .looping side peer)
    (hregistry : (node.absorb conn result).1.registry = markDisconnected peer node.registry) :
    Accurate listens shortLived (node.absorb conn result).1 ↔
      ¬ Held shortLived (node.absorb conn result).1 peer := by
  have hothers : ∀ p, p ≠ peer →
      (AccurateAt listens shortLived (node.absorb conn result).1 p ↔ AccurateAt listens shortLived node p) := by
    intro p hp
    have hlong : ∀ phase, phase = .closed ∨ phase = .looping side peer →
        ¬ LongLived (shortLived conn) p phase := by
      rintro phase (rfl | rfl) hlong
      · exact hlong
      · exact hp hlong.1.symm
    apply accurateAt_congr
    · rw [hregistry, standing_markDisconnected, if_neg hp]
    · rw [held_absorb, held_iff conn, or_iff_right (hlong _ hphase), or_iff_right]
      rintro ⟨phase, hlookup, hl⟩
      rw [hold] at hlookup
      cases hlookup
      exact hlong _ (.inr rfl) hl
  have haddress := (accurateAt_iff.mp (h peer)).2
  rw [accurate_iff_at h hothers, accurateAt_iff, hregistry, standing_markDisconnected, if_pos rfl]
  constructor
  · rintro ⟨hconnected, -⟩ hheld
    obtain ⟨addr, haddr⟩ := hconnected.mpr hheld
    simp at haddr
  · intro hheld
    refine ⟨⟨fun ⟨addr, haddr⟩ => by simp at haddr, fun hh => absurd hh hheld⟩, fun state addr heq => ?_⟩
    obtain ⟨⟨state', addr'⟩, hstanding, hs⟩ := Option.map_eq_some_iff.mp heq
    cases hs
    exact haddress _ _ hstanding

end Absorb

section Steps

/-- The loop ends: nothing more is read, or a response does not get out. -/
def lost (env : Surroundings) : Except WireError WireMessage → Bool
  | .error _ => true
  | .ok msg =>
    match msg.kind with
    | .request _ => !env.writes
    | .response _ | .notification _ => false

/-- The peer says that it is shutting down. -/
def leaves : Except WireError WireMessage → Bool
  | .error _ => false
  | .ok msg => msg.kind = .notification .shuttingDown

variable (listens shortLived) (hmacSign : Hmac) (config : PeerConfig)

/-- The step keeps the registry accurate. A peer that calls does so from an address
at which it listens, and for one message only while a long-lived connection with it
is open; an answer comes from an address at which the peer listens; and a connection
ends when no other long-lived one with the peer is open. -/
def Fits (node : Node) (env : Surroundings) (conn : ConnId) (action : Action) : Prop :=
  match node.connections.lookup conn, action with
  | some (.awaitingHandshake addr), .read (.ok msg) =>
    ∀ peer, Introduces hmacSign config msg peer → env.writes = true →
      listens peer addr ∧ (shortLived conn = true → Held shortLived node peer)
  | some (.awaitingAck addr), .read (.ok msg) =>
    ∀ answer, checkAck hmacSign config msg = .ok answer → listens answer.1 addr
  | some (.looping _ peer), .read result =>
    (lost env result = true → ¬ HeldElsewhere shortLived node conn peer) ∧
    (leaves result = true → ¬ Held shortLived node peer)
  | _, _ => True

variable {listens shortLived hmacSign config} {env : Surroundings}

theorem accurate_readAck_iff (h : Accurate listens shortLived node) {addr : SocketAddr}
    (hold : node.connections.lookup conn = some (.awaitingAck addr)) (msg : WireMessage) :
    Accurate listens shortLived (node.absorb conn (readAck hmacSign config env addr (.ok msg))).1 ↔
      ∀ answer, checkAck hmacSign config msg = .ok answer → listens answer.1 addr := by
  cases hack : checkAck hmacSign config msg with
  | error e =>
    refine iff_of_true (accurate_absorb_quiet h ?_ ?_) nofun
    · simp [readAck, hack, hold, LongLived]
    · simp [readAck, hack, Node.absorb, Effect.register]
  | ok answer =>
    obtain ⟨nodeId, nodeName, version, agents⟩ := answer
    have hread : readAck hmacSign config env addr (.ok msg) =
        (.looping .connecting nodeId, [.received msg, .registry (.addPeer
          ⟨nodeId, nodeName, addr, agents, .connected, env.now, version⟩)]) := by
      simp [readAck, hack]
    rw [hread, accurate_absorb_open h hold (fun _ hlong => hlong) rfl rfl rfl]
    simp

theorem accurate_handleInbound_iff (h : Accurate listens shortLived node) {addr : SocketAddr}
    (hold : node.connections.lookup conn = some (.awaitingHandshake addr))
    (read : Except WireError WireMessage) :
    Accurate listens shortLived (node.absorb conn (handleInbound hmacSign config env addr read)).1 ↔
      ∀ msg peer, read = .ok msg → Introduces hmacSign config msg peer → env.writes = true →
        listens peer addr ∧ (shortLived conn = true → Held shortLived node peer) := by
  have hclosed : ∀ effects, (∀ p, standing (node.absorb conn (.closed, effects)).1.registry p =
      standing node.registry p) → Accurate listens shortLived (node.absorb conn (.closed, effects)).1 :=
    fun effects hregistry => accurate_absorb_quiet h (by simp [hold, LongLived]) hregistry
  rcases handleInbound_cases hmacSign config env addr read with ⟨e, rfl, heq⟩ |
    ⟨msg, code, text, e, rfl, hnot, heq⟩ |
    ⟨msg, nodeId, nodeName, agents, nonce, authHmac, rfl, hkind, hverify, heq⟩
  · rw [heq]
    exact iff_of_true (hclosed _ fun _ => rfl) nofun
  · rw [heq]
    refine iff_of_true (hclosed _ fun _ => rfl) ?_
    rintro msg' peer hmsg hpeer
    cases hmsg
    exact absurd hpeer (hnot peer)
  · have hintroduces : Introduces hmacSign config msg nodeId :=
      ⟨nodeName, agents, nonce, authHmac, hkind, hverify⟩
    have hrhs : (∀ msg' peer, Except.ok msg = Except.ok (ε := WireError) msg' →
        Introduces hmacSign config msg' peer → env.writes = true →
        listens peer addr ∧ (shortLived conn = true → Held shortLived node peer)) ↔
        (env.writes = true →
          listens nodeId addr ∧ (shortLived conn = true → Held shortLived node nodeId)) := by
      constructor
      · exact fun hall => hall msg nodeId rfl hintroduces
      · rintro hall msg' peer hmsg hpeer
        cases hmsg
        rwa [hpeer.unique hintroduces]
    rw [heq, hrhs, admitPeer]
    cases hwrites : env.writes with
    | false =>
      exact iff_of_true (hclosed _ fun _ => rfl) nofun
    | true =>
      simp only [if_true]
      rw [accurate_absorb_open h hold (fun _ hlong => hlong) rfl rfl rfl]
      cases shortLived conn <;> simp

theorem accurate_end_iff (h : Accurate listens shortLived node) {side : Side}
    (hold : node.connections.lookup conn = some (.looping side peer)) {effects : List Effect}
    (hregistry : (node.absorb conn (.closed, effects)).1.registry = markDisconnected peer node.registry) :
    Accurate listens shortLived (node.absorb conn (.closed, effects)).1 ↔
      ¬ HeldElsewhere shortLived node conn peer := by
  rw [accurate_absorb_mark h hold (.inl rfl) hregistry, held_absorb]
  simp [LongLived]

theorem accurate_connectionLoop_iff (h : Accurate listens shortLived node) {side : Side}
    (hold : node.connections.lookup conn = some (.looping side peer))
    (read : Except WireError WireMessage) :
    Accurate listens shortLived (node.absorb conn (connectionLoop env side peer read)).1 ↔
      (lost env read = true → ¬ HeldElsewhere shortLived node conn peer) ∧
      (leaves read = true → ¬ Held shortLived node peer) := by
  have hloop : ∀ p, LongLived (shortLived conn) p (.looping side peer) ↔
      ∃ phase, node.connections.lookup conn = some phase ∧ LongLived (shortLived conn) p phase := by
    simp [hold]
  have hquiet : ∀ effects, (∀ p, standing (node.absorb conn (.looping side peer, effects)).1.registry p =
      standing node.registry p) →
      Accurate listens shortLived (node.absorb conn (.looping side peer, effects)).1 :=
    fun effects hregistry => accurate_absorb_quiet h hloop hregistry
  cases read with
  | error e =>
    rw [connectionLoop, accurate_end_iff h hold rfl]
    simp [lost, leaves]
  | ok msg =>
    obtain ⟨id, kind⟩ := msg
    cases kind with
    | notification notif =>
      cases notif with
      | agentSpawned agent =>
        exact iff_of_true (hquiet _ fun _ => standing_adjust fun _ => ⟨rfl, rfl⟩) (by simp [lost, leaves])
      | agentTerminated agentId =>
        exact iff_of_true (hquiet _ fun _ => standing_adjust fun _ => ⟨rfl, rfl⟩) (by simp [lost, leaves])
      | shuttingDown =>
        have hheld : Held shortLived (node.absorb conn (connectionLoop env side peer
            (.ok ⟨id, .notification .shuttingDown⟩))).1 peer ↔ Held shortLived node peer := by
          rw [held_absorb, held_iff conn]
          exact or_congr (hloop peer) .rfl
        rw [accurate_absorb_mark h hold (.inr rfl) rfl, hheld]
        simp [lost, leaves]
    | request request =>
      cases hwrites : env.writes with
      | true =>
        simp only [connectionLoop, hwrites, if_true]
        exact iff_of_true (hquiet _ fun _ => by cases request <;> rfl) (by simp [lost, leaves, hwrites])
      | false =>
        simp only [connectionLoop, hwrites, if_false, Bool.false_eq_true]
        rw [accurate_end_iff h hold (by cases request <;> rfl)]
        simp [lost, leaves, hwrites]
    | response response =>
      exact iff_of_true (hquiet _ fun _ => rfl) (by simp [lost, leaves])

/-- A connection that is dialled, or given up at once, changes nothing yet. -/
theorem accurate_openWith (h : Accurate listens shortLived node)
    (hold : ∀ phase, node.connections.lookup conn = some phase → ∀ p, ¬ LongLived (shortLived conn) p phase)
    (next : Phase) (hnext : ∀ p, ¬ LongLived (shortLived conn) p next) (addr : SocketAddr) :
    Accurate listens shortLived (node.absorb conn (openWith hmacSign config env addr next)).1 := by
  rw [openWith]
  cases env.writes with
  | true => exact accurate_absorb_idle h hold hnext fun _ => rfl
  | false => exact accurate_absorb_idle h hold (fun _ => id) fun _ => rfl

theorem accurate_readSendAck (h : Accurate listens shortLived node)
    (hold : ∀ phase, node.connections.lookup conn = some phase → ∀ p, ¬ LongLived (shortLived conn) p phase)
    {agent message : Str} {sender : Option Str} (read : Except WireError WireMessage) :
    Accurate listens shortLived
      (node.absorb conn (readSendAck hmacSign config env agent message sender read)).1 := by
  cases read with
  | error e => exact accurate_absorb_idle h hold (fun _ => id) fun _ => rfl
  | ok msg =>
    simp only [readSendAck]
    split
    · exact accurate_absorb_idle h hold (fun _ => id) fun _ => rfl
    · split
      · exact accurate_absorb_idle h hold (fun _ => id) fun _ => rfl
      · exact accurate_absorb_idle h hold (fun _ => id) fun _ => rfl

theorem accurate_readReply (h : Accurate listens shortLived node)
    (hold : ∀ phase, node.connections.lookup conn = some phase → ∀ p, ¬ LongLived (shortLived conn) p phase)
    (read : Except WireError WireMessage) :
    Accurate listens shortLived (node.absorb conn (readReply read)).1 := by
  cases read with
  | error e => exact accurate_absorb_idle h hold (fun _ => id) fun _ => rfl
  | ok msg =>
    refine accurate_absorb_idle h hold (fun _ => id) fun _ => ?_
    simp only [readReply, Node.absorb, List.foldl_cons, List.foldl_nil]
    split <;> rfl

theorem act_new_accurate (h : Accurate listens shortLived node)
    (hnew : node.connections.lookup conn = none) (action : Action) :
    Accurate listens shortLived (node.act hmacSign config env conn action).1 := by
  have hold : ∀ phase, node.connections.lookup conn = some phase →
      ∀ p, ¬ LongLived (shortLived conn) p phase := by simp [hnew]
  cases action <;> simp only [Node.act, hnew]
  case accept addr => exact accurate_absorb_idle h hold (fun _ => id) fun _ => rfl
  case connect addr => exact accurate_openWith h hold (.awaitingAck addr) (fun _ => id) addr
  case send nodeId agent message sender =>
    rw [sendToPeer]
    split
    · exact accurate_absorb_idle h hold (fun _ => id) fun _ => rfl
    · exact accurate_openWith h hold (.awaitingSendAck agent message sender) (fun _ => id) _
  case read result => exact h

/-- A step keeps the registry accurate exactly when it fits. -/
theorem act_accurate_iff (h : Accurate listens shortLived node) (action : Action) :
    Accurate listens shortLived (node.act hmacSign config env conn action).1 ↔
      Fits listens shortLived hmacSign config node env conn action := by
  cases hold : node.connections.lookup conn with
  | none => exact iff_of_true (act_new_accurate h hold action) (by simp [Fits, hold])
  | some phase =>
    cases action <;> simp only [Node.act, Fits, hold]
    case read result =>
      have hidle : ∀ result : Phase × List Effect, (∀ p, ¬ LongLived (shortLived conn) p phase) →
          (∀ p, ¬ LongLived (shortLived conn) p result.1) →
          (∀ p, standing (node.absorb conn result).1.registry p = standing node.registry p) →
          Accurate listens shortLived (node.absorb conn result).1 := by
        intro result hphase hnext hregistry
        exact accurate_absorb_idle h (fun phase' hlookup => by simp_all) hnext hregistry
      cases phase with
      | awaitingHandshake addr =>
        rw [Phase.step, accurate_handleInbound_iff h hold]
        cases result with
        | error e => simp
        | ok msg => exact ⟨fun hall peer => hall msg peer rfl, fun hall _ peer heq => by cases heq; exact hall peer⟩
      | awaitingAck addr =>
        cases result with
        | error e => exact iff_of_true (hidle _ (fun _ => id) (fun _ => id) fun _ => rfl) trivial
        | ok msg => exact accurate_readAck_iff h hold msg
      | awaitingSendAck agent message sender =>
        refine iff_of_true (accurate_readSendAck h (by simp [hold, LongLived]) result) trivial
      | awaitingReply =>
        exact iff_of_true (accurate_readReply h (by simp [hold, LongLived]) result) trivial
      | looping side peer => exact accurate_connectionLoop_iff h hold result
      | closed => exact iff_of_true (hidle _ (fun _ => id) (fun _ => id) fun _ => rfl) trivial
    all_goals exact iff_of_true h trivial

end Steps

section Runs

theorem new_accurate {listens : Str → SocketAddr → Prop} {shortLived : ConnId → Bool} :
    Accurate listens shortLived ⟨∅, ∅⟩ :=
  fun _ => ⟨by simp [Held], by simp⟩

/-- In every state of a run the registries of all nodes are accurate if and only if
every step keeps the registry of its node accurate. -/
theorem network_accurate_iff (S : Setting) (listens : Str → SocketAddr → Prop)
    (shortLived : Str → ConnId → Bool) (moves : List Move) :
    (∀ done, done <+: moves →
      ∀ n, Accurate listens (shortLived n) ((run (Network.step S) Network.new done).1 n)) ↔
      Allowed (Network.step S)
        (fun net move => Fits listens (shortLived move.node) S.hmacSign (S.config move.node)
          (net move.node) move.env move.conn move.action) Network.new moves := by
  have hstep : ∀ (net : Network) (move : Move), (∀ n, Accurate listens (shortLived n) (net n)) →
      ((∀ n, Accurate listens (shortLived n) ((Network.step S net move).1 n)) ↔
        Fits listens (shortLived move.node) S.hmacSign (S.config move.node)
          (net move.node) move.env move.conn move.action) := by
    intro net move h
    rw [← act_accurate_iff (h move.node)]
    constructor
    · intro hall
      have hnode := hall move.node
      rwa [Network.step_self] at hnode
    · intro hnode n
      by_cases hn : n = move.node
      · subst hn
        rwa [Network.step_self]
      · rw [Network.step_other S net move hn]
        exact h n
  have hnew : ∀ n, Accurate listens (shortLived n) (Network.new n) := fun _ => new_accurate
  exact forall_prefix_iff_allowed (Network.step S) hstep hnew moves

/-- The second node listens at one port, and calls from others. -/
def port (n : UInt16) : SocketAddr := ⟨"10.0.0.2".toList, n⟩

/-- The first node is connected with the second, which sends it one message on another
connection. -/
def oneMessage : List Move :=
  [⟨nodeOne, 0, .connect (port 4200), quietly⟩,
   ⟨nodeOne, 0, .read (.ok ⟨"m1".toList, .response
     (.handshakeAck nodeTwo nodeTwo 1 [] "n1".toList (signedBy "n1".toList nodeTwo))⟩), quietly⟩,
   ⟨nodeOne, 1, .accept (port 50123), quietly⟩,
   ⟨nodeOne, 1, .read (.ok ⟨"m2".toList, .request
     (.handshake nodeTwo nodeTwo 1 [] "n2".toList (signedBy "n2".toList nodeTwo))⟩), quietly⟩,
   ⟨nodeOne, 1, .read (.error .connectionClosed), quietly⟩]

/-- After the message the second node is listed as disconnected. -/
theorem network_inaccurate :
    ¬ ∀ n, Accurate (fun _ addr => addr = port 4200) (fun conn => conn = 1)
      ((run (Network.step plainSetting) Network.new oneMessage).1 n) := by
  intro h
  have hlisted : (((run (Network.step plainSetting) Network.new oneMessage).1 nodeOne).registry.lookup
      nodeTwo).map (·.state) = some .disconnected := by decide
  obtain ⟨entry, hentry, hstate⟩ := (h nodeOne nodeTwo).connected.mpr
    ⟨0, .looping .connecting nodeTwo, by decide, rfl, .inl rfl⟩
  rw [hentry, Option.map_some, hstate] at hlisted
  cases hlisted

end Runs

end Accuracy

end Clawreform.Wire
