import Clawreform.Kernel.Lifecycle

namespace Clawreform.Kernel.Lifecycle

open Clawreform.Lib Clawreform.Lib.Text Clawreform.Lib.Run Clawreform.Lib.Store
open Clawreform.Types Clawreform.Hands Clawreform.Memory

section Purpose

/-- The registry, the capabilities, the scheduler, the sessions, the triggers and the instances of
hands are as they were. -/
structure Untouched (s s' : KernelState) : Prop where
  registry : s'.registry = s.registry
  origins : s'.origins = s.origins
  capabilities : s'.capabilities = s.capabilities
  scheduler : s'.scheduler = s.scheduler
  sessions : s'.sessions = s.sessions
  triggers : s'.triggers = s.triggers
  hands : s'.hands = s.hands

def AllOrNothing {α : Type} (s : KernelState) (result : KernelState × Except ClawReformError α) :
    Prop :=
  ∀ e, result.2 = .error e → Untouched s result.1

/-- Behind the new session nothing fails. -/
def GoesThrough (s : KernelState) (name : Str) (draw : Draw) : Prop :=
  draw.workspaceError = none ∧ name ∉ s.registry.nameIndex ∧ draw.saveError = none

end Purpose

section Spawn

variable {K : KernelConfig} {s : KernelState} {manifest : SpawnManifest} {parent : Option AgentId}
variable {draw : Draw}

theorem Untouched.refl (s : KernelState) : Untouched s s := ⟨rfl, rfl, rfl, rfl, rfl, rfl, rfl⟩

theorem prepared_name (manifest : SpawnManifest) (agentId : AgentId) :
    (prepared K manifest agentId).name = manifest.name := by
  unfold prepared overlayModel inheritPolicy
  split <;> rfl

theorem spawn_of_sessionError {e : ClawReformError} (h : draw.sessionError = some e) :
    spawnAgentWithParent K s manifest parent draw = (s, .error e) := by
  rw [spawnAgentWithParent, h]

/-- A spawn that stored its session ends well exactly when the rest goes through, and leaves
the session behind either way. -/
theorem spawn_of_session (h : draw.sessionError = none) :
    (spawnAgentWithParent K s manifest parent draw).1.sessions =
      s.sessions.createSession draw.agentId draw.storedSessionId ∧
    (spawnAgentWithParent K s manifest parent draw).1.hands = s.hands ∧
    ((spawnAgentWithParent K s manifest parent draw).2 = .ok draw.agentId ∧
        GoesThrough s manifest.name draw ∨
      (∃ e, (spawnAgentWithParent K s manifest parent draw).2 = .error e) ∧
        ¬ GoesThrough s manifest.name draw) := by
  unfold spawnAgentWithParent
  rw [h]
  simp only
  cases hworkspace : draw.workspaceError with
  | some e =>
    refine ⟨rfl, rfl, Or.inr ⟨⟨e, rfl⟩, fun hgoes => ?_⟩⟩
    exact nomatch hworkspace.symm.trans hgoes.1
  | none =>
    simp only
    have hname : (entryOf (prepared K manifest draw.agentId) draw).name = manifest.name :=
      prepared_name manifest draw.agentId
    rw [AgentRegistry.register, hname]
    by_cases htaken : manifest.name ∈ s.registry.nameIndex
    · rw [if_pos htaken]
      exact ⟨rfl, rfl, Or.inr ⟨⟨_, rfl⟩, fun hgoes => hgoes.2.1 htaken⟩⟩
    · rw [if_neg htaken]
      simp only
      cases hsave : draw.saveError with
      | some e =>
        refine ⟨rfl, rfl, Or.inr ⟨⟨e, rfl⟩, fun hgoes => ?_⟩⟩
        exact nomatch hsave.symm.trans hgoes.2.2
      | none => exact ⟨rfl, rfl, Or.inl ⟨rfl, hworkspace, htaken, hsave⟩⟩

theorem spawn_agentId {s' : KernelState} {agentId : AgentId}
    (h : spawnAgentWithParent K s manifest parent draw = (s', .ok agentId)) :
    draw.agentId = agentId := by
  cases hsession : draw.sessionError with
  | some e =>
    rw [spawn_of_sessionError hsession] at h
    cases h
  | none =>
    obtain ⟨-, -, ⟨hok, -⟩ | ⟨⟨e, he⟩, -⟩⟩ := @spawn_of_session K s manifest parent draw hsession
    · rw [h] at hok
      exact (Except.ok.inj hok).symm
    · rw [h] at he
      cases he

/-- A session with a new id shows. -/
theorem createSession_ne {sessions : SessionStore} {agentId : AgentId} {id : SessionId}
    (h : id ∉ sessions.sessions) : sessions.createSession agentId id ≠ sessions := by
  intro heq
  have hnone : sessions.getSession id = none := AList.lookup_eq_none.mpr h
  rw [← heq, SessionStore.getSession_createSession, if_pos rfl] at hnone
  cases hnone

theorem spawn_allOrNothing_iff (hfresh : draw.storedSessionId ∉ s.sessions.sessions) :
    AllOrNothing s (spawnAgentWithParent K s manifest parent draw) ↔
      draw.sessionError ≠ none ∨ GoesThrough s manifest.name draw := by
  cases hsession : draw.sessionError with
  | some e =>
    rw [spawn_of_sessionError hsession]
    exact iff_of_true (fun _ _ => .refl s) (Or.inl nofun)
  | none =>
    obtain ⟨hsessions, -, ⟨hok, hgoes⟩ | ⟨⟨e, herr⟩, hgoes⟩⟩ := @spawn_of_session K s manifest
      parent draw hsession
    · exact iff_of_true (fun e he => nomatch hok.symm.trans he) (Or.inr hgoes)
    · refine iff_of_false (fun hall => ?_) ?_
      · exact createSession_ne hfresh (hsessions.symm.trans (hall e herr).sessions)
      · rintro (h | h)
        · exact h rfl
        · exact hgoes h

end Spawn

section Activate

variable {K : KernelConfig} {s : KernelState} {handId : Str} {config : HandConfig}
variable {instanceId : Uuid} {draw : Draw} {hand : HandDefinition}

/-- Activating the hand is refused before anything is done. -/
def RefusedAtOnce (s : KernelState) (handId : Str) : Prop :=
  s.hands.getDefinition handId = none ∨ s.hands.running handId = true

theorem activate_of_refused (h : RefusedAtOnce s handId) :
    (activateHand K s handId config instanceId draw).1 = s ∧
      ∃ e, (activateHand K s handId config instanceId draw).2 = .error e := by
  unfold activateHand
  cases hhand : s.hands.getDefinition handId with
  | none => exact ⟨rfl, _, rfl⟩
  | some hand =>
    have hrunning : s.hands.running handId = true :=
      h.resolve_left fun hnone => nomatch hhand.symm.trans hnone
    have hlookup : s.hands.definitions.lookup handId = some hand := hhand
    simp only [HandRegistry.activate, hlookup, hrunning, if_true]
    exact ⟨trivial, _, rfl⟩

/-- The registry of hands with the new instance. -/
def withInstance (s : KernelState) (created : HandInstance) : KernelState :=
  { s with hands.instances := s.hands.instances.insert created.instanceId created }

theorem activate_of_spawn (hhand : s.hands.getDefinition handId = some hand)
    (hrunning : ¬ s.hands.running handId = true) :
    let created := HandInstance.new handId hand.agent.name config instanceId draw.now
    let spawned := spawnAgentWithParent K (withInstance s created) (handManifest K hand created)
      none draw
    (∀ agentId, spawned.2 = .ok agentId →
      ∃ i, (activateHand K s handId config instanceId draw).2 = .ok i) ∧
    ∀ e, spawned.2 = .error e →
      activateHand K s handId config instanceId draw = (spawned.1, .error e) := by
  intro created spawned
  have hactivate : s.hands.activate handId config instanceId draw.now =
      ((withInstance s created).hands, .ok created) := by
    have hlookup : s.hands.definitions.lookup handId = some hand := hhand
    simp only [HandRegistry.activate, hlookup, if_neg hrunning]
    rfl
  have hunfold : activateHand K s handId config instanceId draw =
      linkAgent created draw.now spawned := by
    rw [activateHand, hhand]
    simp only [hactivate]
    rfl
  constructor
  · intro agentId hok
    have hsession : draw.sessionError = none := by
      cases h : draw.sessionError with
      | none => rfl
      | some e =>
        have herr : spawned = (withInstance s created, .error e) := spawn_of_sessionError h
        rw [herr] at hok
        cases hok
    have hhands : spawned.1.hands = (withInstance s created).hands :=
      (spawn_of_session hsession).2.1
    have hset : (spawned.1.hands.setAgent created.instanceId agentId draw.now).2 = .ok () := by
      rw [hhands, HandRegistry.setAgent, HandRegistry.update]
      have hlookup : (withInstance s created).hands.instances.lookup created.instanceId =
          some created := AList.lookup_insert _
      rw [hlookup]
    have hlink : ∀ p : HandRegistry × Except HandError Unit, p.2 = .ok () →
        p = (p.1, .ok ()) := fun p hp => Prod.ext rfl hp
    have hpair : spawned = (spawned.1, .ok agentId) := Prod.ext rfl hok
    rw [hunfold, hpair, linkAgent, hlink _ hset]
    exact ⟨_, rfl⟩
  · intro e herr
    have hpair : spawned = (spawned.1, .error e) := Prod.ext rfl herr
    rw [hunfold, hpair, linkAgent]

/-- A spawn does not touch the hands. -/
theorem spawn_hands {manifest : SpawnManifest} {parent : Option AgentId} :
    (spawnAgentWithParent K s manifest parent draw).1.hands = s.hands := by
  cases hsession : draw.sessionError with
  | some e => rw [spawn_of_sessionError hsession]
  | none => exact (spawn_of_session hsession).2.1

theorem withInstance_ne {created : HandInstance} (h : created.instanceId ∉ s.hands.instances) :
    (withInstance s created).hands ≠ s.hands := by
  intro heq
  have hnone : s.hands.instances.lookup created.instanceId = none := AList.lookup_eq_none.mpr h
  rw [← heq, withInstance, AList.lookup_insert] at hnone
  cases hnone

/-- What has to be so before a hand is activated for the call to leave nothing half done. -/
def Activates (s : KernelState) (handId : Str) (draw : Draw) : Prop :=
  ∃ hand, s.hands.getDefinition handId = some hand ∧ draw.sessionError = none ∧
    GoesThrough s hand.agent.name draw

theorem activate_allOrNothing_iff (hfresh : instanceId ∉ s.hands.instances) :
    AllOrNothing s (activateHand K s handId config instanceId draw) ↔
      RefusedAtOnce s handId ∨ Activates s handId draw := by
  by_cases hrefused : RefusedAtOnce s handId
  · refine iff_of_true (fun e _ => ?_) (Or.inl hrefused)
    rw [(activate_of_refused hrefused).1]
    exact .refl s
  obtain ⟨hunknown, hrunning⟩ := not_or.mp hrefused
  obtain ⟨hand, hhand⟩ := Option.ne_none_iff_exists'.mp hunknown
  obtain ⟨hok, herr⟩ := @activate_of_spawn K s handId config instanceId draw hand hhand hrunning
  have hfails : ∀ e, (spawnAgentWithParent K
      (withInstance s (.new handId hand.agent.name config instanceId draw.now))
      (handManifest K hand (.new handId hand.agent.name config instanceId draw.now)) none draw).2 =
        .error e → ¬ AllOrNothing s (activateHand K s handId config instanceId draw) := by
    intro e he hall
    rw [herr e he] at hall
    exact withInstance_ne hfresh (spawn_hands.symm.trans (hall e rfl).hands)
  have hknown : ∀ other, s.hands.getDefinition handId = some other → other = hand :=
    fun other hother => Option.some.inj (hother.symm.trans hhand)
  cases hsession : draw.sessionError with
  | some e =>
    refine iff_of_false (hfails e (by rw [spawn_of_sessionError hsession])) ?_
    rintro (h | ⟨_, -, hnone, -⟩)
    · exact hrefused h
    · exact nomatch hsession.symm.trans hnone
  | none =>
    obtain ⟨-, -, ⟨hspawned, hgoes⟩ | ⟨⟨e, he⟩, hgoes⟩⟩ := @spawn_of_session K
      (withInstance s (.new handId hand.agent.name config instanceId draw.now))
      (handManifest K hand (.new handId hand.agent.name config instanceId draw.now)) none draw
      hsession
    · obtain ⟨i, hi⟩ := hok _ hspawned
      exact iff_of_true (fun e he => nomatch hi.symm.trans he)
        (Or.inr ⟨hand, hhand, hsession, hgoes⟩)
    · refine iff_of_false (hfails e he) ?_
      rintro (h | ⟨other, hother, -, hthrough⟩)
      · exact hrefused h
      · rw [hknown other hother] at hthrough
        exact hgoes hthrough

end Activate

/-- A spawn or an activation that fails has left everything as it was exactly when it failed
before its session or its instance was stored, or does not fail at all; and a run of the hands keeps
one instance of each active all along exactly when it resumes none beside an active one. -/
theorem spawn_and_activation_iff (K : KernelConfig) (s : KernelState) (manifest : SpawnManifest)
    (parent : Option AgentId) (handId : Str) (config : HandConfig) (instanceId : Uuid)
    (draw : Draw) (hsession : draw.storedSessionId ∉ s.sessions.sessions)
    (hinstance : instanceId ∉ s.hands.instances) (definitions : Map Str HandDefinition)
    (ops : List HandRegistry.Op) :
    (AllOrNothing s (spawnAgentWithParent K s manifest parent draw) ↔
      draw.sessionError ≠ none ∨ GoesThrough s manifest.name draw) ∧
    (AllOrNothing s (activateHand K s handId config instanceId draw) ↔
      RefusedAtOnce s handId ∨ Activates s handId draw) ∧
    ((∀ before, before <+: ops →
        (run HandRegistry.step (.start definitions) before).1.AtMostOneActive) ↔
      Allowed HandRegistry.step HandRegistry.Alone (.start definitions) ops) :=
  ⟨spawn_allOrNothing_iff hsession, activate_allOrNothing_iff hinstance,
    HandRegistry.forall_prefix_atMostOneActive HandRegistry.atMostOneActive_start ops⟩

def plainKernel : KernelConfig where
  execPolicy := .default
  defaultModel := ⟨"anthropic".toList, "claude".toList, none⟩
  workspacesDir := "/w".toList
  rendering := TriggerEngine.plainRendering

def clip : HandDefinition where
  id := "clip".toList
  tools := ["shell_exec".toList]
  skills := []
  mcpServers := []
  settings := []
  agent := ⟨"clip-hand".toList, [], "default".toList, "default".toList, none, none, []⟩
  skillContent := none

def KernelState.fresh (definitions : Map Str HandDefinition) : KernelState where
  registry := .new
  origins := ∅
  capabilities := ∅
  scheduler := ⟨∅, ∅⟩
  background := ⟨[], []⟩
  triggers := .new
  sessions := ⟨∅, ∅⟩
  rows := ∅
  hands := .start definitions

/-- A spawn that nothing fails, with ids counted up from a number. -/
def smooth (n : Nat) : Draw where
  agentId := n
  sessionId := n
  storedSessionId := n + 1
  triggerIds := fun k => n + k
  now := 0
  sessionError := none
  workspaceError := none
  saveError := none

def withClip : KernelState := .fresh ((∅ : Map Str HandDefinition).insert clip.id clip)

def SpawnManifest.named (name : Str) : SpawnManifest :=
  { Declared.default with
    name := name, description := [], model := ⟨[], [], []⟩, skills := [], mcpServers := []
    workspace := none }

theorem spawn_and_activation_clip :
    (AllOrNothing withClip (spawnAgentWithParent plainKernel withClip (.named "coder".toList) none
      (smooth 10)) ↔ (smooth 10).sessionError ≠ none ∨
        GoesThrough withClip "coder".toList (smooth 10)) ∧
    (AllOrNothing withClip (activateHand plainKernel withClip clip.id ∅ 1 (smooth 10)) ↔
      RefusedAtOnce withClip clip.id ∨ Activates withClip clip.id (smooth 10)) :=
  have h := spawn_and_activation_iff plainKernel withClip (.named "coder".toList) none clip.id ∅ 1
    (smooth 10) (by decide) (by decide) ∅ []
  ⟨h.1, h.2.1⟩

/-- The hand is activated and paused. -/
def paused : KernelState :=
  let s := (activateHand plainKernel withClip clip.id ∅ 1 (smooth 10)).1
  { s with hands := (s.hands.pause 1 0).1 }

/-- The paused hand is activated a second time, but its agent still has the name. -/
def again : KernelState × Except ClawReformError HandInstance :=
  activateHand plainKernel paused clip.id ∅ 2 (smooth 20)

theorem second_activation_fails :
    again.2 = .error (.agentAlreadyExists "clip-hand".toList) ∧ ¬ Untouched paused again.1 ∧
      ¬ (again.1.hands.resume 1 0).1.AtMostOneActive := by
  refine ⟨by decide +kernel, fun h => ?_, fun h => ?_⟩
  · have hsize : again.1.hands.instances.entries.length = 1 := by
      rw [h.hands]
      decide +kernel
    exact absurd hsize (by decide +kernel)
  · have hboth : ∀ i : Uuid, i = 1 ∨ i = 2 →
        ∃ a, (again.1.hands.resume 1 0).1.instances.lookup i = some a ∧ a.status = .active ∧
          a.handId = clip.id := by
      intro i hi
      have hany : ((again.1.hands.resume 1 0).1.instances.lookup i).any (fun a =>
          a.status = .active ∧ a.handId = clip.id) = true := by
        obtain rfl | rfl := hi <;> decide +kernel
      obtain ⟨a, ha, hactive⟩ := (Option.any_eq_true _ _).mp hany
      exact ⟨a, ha, of_decide_eq_true hactive⟩
    obtain ⟨a, ha, hactiveA, hhandA⟩ := hboth 1 (Or.inl rfl)
    obtain ⟨b, hb, hactiveB, hhandB⟩ := hboth 2 (Or.inr rfl)
    exact absurd (h 1 2 a b ha hb hactiveA hactiveB (hhandA.trans hhandB.symm)) (by decide)

end Clawreform.Kernel.Lifecycle
