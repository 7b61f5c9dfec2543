import Clawreform.Lib.Json
import Clawreform.Lib.Run
import Clawreform.Lib.Store
import Clawreform.Types.Agent

namespace Clawreform.Hands

open Clawreform.Lib Clawreform.Lib.Text Clawreform.Lib.Run Clawreform.Lib.Store Clawreform.Types

section Definitions

inductive HandError where
  | notFound (handId : Str)
  | alreadyActive (handId : Str)
  | instanceNotFound (instanceId : Uuid)
  deriving DecidableEq

def HandError.toStr : HandError → Str
  | .notFound handId => "Hand not found: ".toList ++ handId
  | .alreadyActive handId => "Hand already active: ".toList ++ handId
  | .instanceNotFound instanceId => "Hand instance not found: ".toList ++ instanceId.toStr

inductive HandSettingType where
  | select
  | text
  | toggle
  deriving DecidableEq

structure HandSettingOption where
  value : Str
  label : Str
  providerEnv : Option Str
  deriving DecidableEq

structure HandSetting where
  key : Str
  label : Str
  settingType : HandSettingType
  default : Str
  options : List HandSettingOption
  deriving DecidableEq

structure HandAgentConfig where
  name : Str
  description : Str
  provider : Str
  model : Str
  apiKeyEnv : Option Str
  baseUrl : Option Str
  systemPrompt : Str
  deriving DecidableEq

structure HandDefinition where
  id : Str
  tools : List Str
  skills : List Str
  mcpServers : List Str
  settings : List HandSetting
  agent : HandAgentConfig
  skillContent : Option Str
  deriving DecidableEq

inductive HandStatus where
  | active
  | paused
  | error (message : Str)
  | inactive
  deriving DecidableEq

abbrev HandConfig := Map Str Json.Value

structure HandInstance where
  instanceId : Uuid
  handId : Str
  status : HandStatus
  agentId : Option AgentId
  agentName : Str
  config : HandConfig
  activatedAt : DateTime
  updatedAt : DateTime
  deriving DecidableEq

def HandInstance.new (handId agentName : Str) (config : HandConfig) (instanceId : Uuid)
    (now : DateTime) : HandInstance where
  instanceId := instanceId
  handId := handId
  status := .active
  agentId := none
  agentName := agentName
  config := config
  activatedAt := now
  updatedAt := now

end Definitions

section Settings

structure ResolvedSettings where
  promptBlock : Str
  envVars : List Str
  deriving DecidableEq

def chosenValue (config : HandConfig) (setting : HandSetting) : Str :=
  ((config.lookup setting.key).bind Json.Value.asStr).getD setting.default

def matchedOption (config : HandConfig) (setting : HandSetting) : Option HandSettingOption :=
  setting.options.find? fun o => o.value = chosenValue config setting

/-- The line of a setting in the prompt; an empty text has none. -/
def settingLine (config : HandConfig) (setting : HandSetting) : Option Str :=
  let chosen := chosenValue config setting
  match setting.settingType with
  | .select =>
    let display := ((matchedOption config setting).map (·.label)).getD chosen
    some ("- ".toList ++ setting.label ++ ": ".toList ++ display ++ " (".toList ++ chosen ++
      ")".toList)
  | .toggle =>
    let enabled := chosen = "true".toList ∨ chosen = "1".toList
    some ("- ".toList ++ setting.label ++ ": ".toList ++
      (if enabled then "Enabled".toList else "Disabled".toList))
  | .text =>
    if chosen = [] then none else some ("- ".toList ++ setting.label ++ ": ".toList ++ chosen)

def settingEnv (config : HandConfig) (setting : HandSetting) : Option Str :=
  match setting.settingType with
  | .select => (matchedOption config setting).bind (·.providerEnv)
  | .toggle | .text => none

def resolveSettings (settings : List HandSetting) (config : HandConfig) : ResolvedSettings :=
  let lines := settings.filterMap (settingLine config)
  { promptBlock :=
      if lines = [] then [] else "## User Configuration\n\n".toList ++ ['\n'].intercalate lines
    envVars := settings.filterMap (settingEnv config) }

end Settings

structure HandRegistry where
  definitions : Map Str HandDefinition
  instances : Map Uuid HandInstance
  deriving DecidableEq

namespace HandRegistry

section Code

/-- The definitions are loaded before any hand is activated. -/
def start (definitions : Map Str HandDefinition) : HandRegistry := ⟨definitions, ∅⟩

variable (r : HandRegistry)

def getDefinition (handId : Str) : Option HandDefinition := r.definitions.lookup handId

/-- Some instance of the hand is active. -/
def running (handId : Str) : Bool :=
  r.instances.entries.any fun e => e.2.handId = handId ∧ e.2.status = .active

/-- `instanceId` is the new instance's random id. -/
def activate (handId : Str) (config : HandConfig) (instanceId : Uuid) (now : DateTime) :
    HandRegistry × Except HandError HandInstance :=
  match r.definitions.lookup handId with
  | none => (r, .error (.notFound handId))
  | some hand =>
    if r.running handId then (r, .error (.alreadyActive handId))
    else
      let created := HandInstance.new handId hand.agent.name config instanceId now
      ({ r with instances := r.instances.insert instanceId created }, .ok created)

def deactivate (instanceId : Uuid) : HandRegistry × Except HandError HandInstance :=
  match r.instances.lookup instanceId with
  | none => (r, .error (.instanceNotFound instanceId))
  | some removed => ({ r with instances := r.instances.erase instanceId }, .ok removed)

/-- The setters look the instance up and change it in place. -/
def update (instanceId : Uuid) (f : HandInstance → HandInstance) :
    HandRegistry × Except HandError Unit :=
  match r.instances.lookup instanceId with
  | none => (r, .error (.instanceNotFound instanceId))
  | some _ => ({ r with instances := adjust instanceId f r.instances }, .ok ())

def pause (instanceId : Uuid) (now : DateTime) :=
  r.update instanceId fun i => { i with status := .paused, updatedAt := now }

def resume (instanceId : Uuid) (now : DateTime) :=
  r.update instanceId fun i => { i with status := .active, updatedAt := now }

def setAgent (instanceId : Uuid) (agentId : AgentId) (now : DateTime) :=
  r.update instanceId fun i => { i with agentId := some agentId, updatedAt := now }

def setError (instanceId : Uuid) (message : Str) (now : DateTime) :=
  r.update instanceId fun i => { i with status := .error message, updatedAt := now }

def getInstance (instanceId : Uuid) : Option HandInstance := r.instances.lookup instanceId

inductive Op where
  | activate (handId : Str) (config : HandConfig) (instanceId : Uuid) (now : DateTime)
  | deactivate (instanceId : Uuid)
  | pause (instanceId : Uuid) (now : DateTime)
  | resume (instanceId : Uuid) (now : DateTime)
  | setAgent (instanceId : Uuid) (agentId : AgentId) (now : DateTime)
  | setError (instanceId : Uuid) (message : Str) (now : DateTime)

def apply : Op → HandRegistry × Except HandError Unit
  | .activate handId config instanceId now =>
    let p := r.activate handId config instanceId now
    (p.1, p.2.map fun _ => ())
  | .deactivate instanceId =>
    let p := r.deactivate instanceId
    (p.1, p.2.map fun _ => ())
  | .pause instanceId now => r.pause instanceId now
  | .resume instanceId now => r.resume instanceId now
  | .setAgent instanceId agentId now => r.setAgent instanceId agentId now
  | .setError instanceId message now => r.setError instanceId message now

def step (r : HandRegistry) (op : Op) : HandRegistry × List (Except HandError Unit) :=
  ((r.apply op).1, [(r.apply op).2])

end Code

section Active

variable (r : HandRegistry)

/-- No two instances of one hand are active. -/
def AtMostOneActive : Prop :=
  ∀ i j a b, r.instances.lookup i = some a → r.instances.lookup j = some b →
    a.status = .active → b.status = .active → a.handId = b.handId → i = j

/-- What resuming does not look at: no other instance of the hand is active. -/
def Alone (r : HandRegistry) : Op → Prop
  | .resume instanceId _ => ∀ a, r.instances.lookup instanceId = some a →
      ∀ j b, r.instances.lookup j = some b → b.status = .active → b.handId = a.handId →
        j = instanceId
  | .activate _ _ _ _ | .deactivate _ | .pause _ _ | .setAgent _ _ _ | .setError _ _ _ => True

variable {r} {handId : Str} {instanceId : Uuid} {now : DateTime}

theorem running_iff : r.running handId = true ↔
    ∃ i a, r.instances.lookup i = some a ∧ a.handId = handId ∧ a.status = .active := by
  rw [running, List.any_eq_true]
  constructor
  · rintro ⟨⟨i, a⟩, hmem, h⟩
    exact ⟨i, a, mem_entries.mp hmem, of_decide_eq_true h⟩
  · rintro ⟨i, a, hlookup, h⟩
    exact ⟨⟨i, a⟩, mem_entries.mpr hlookup, decide_eq_true h⟩

/-- An update that makes no instance active and moves none to another hand. -/
theorem AtMostOneActive.update (h : r.AtMostOneActive) (instanceId : Uuid)
    {f : HandInstance → HandInstance} (hhand : ∀ a, (f a).handId = a.handId)
    (hactive : ∀ a, (f a).status = .active → a.status = .active) :
    (r.update instanceId f).1.AtMostOneActive := by
  rw [HandRegistry.update]
  split
  · exact h
  · have hback : ∀ i a, (adjust instanceId f r.instances).lookup i = some a → ∃ old,
        r.instances.lookup i = some old ∧ a.handId = old.handId ∧
          (a.status = .active → old.status = .active) := by
      intro i a ha
      rw [lookup_adjust] at ha
      split at ha
      · obtain ⟨old, hold, rfl⟩ := Option.map_eq_some_iff.mp ha
        rename_i hi
        exact ⟨old, hi ▸ hold, hhand old, hactive old⟩
      · exact ⟨a, ha, rfl, id⟩
    intro i j a b ha hb hactiveA hactiveB hsame
    obtain ⟨a', ha', hhandA, hkeepA⟩ := hback i a ha
    obtain ⟨b', hb', hhandB, hkeepB⟩ := hback j b hb
    apply h i j a' b' ha' hb' (hkeepA hactiveA) (hkeepB hactiveB)
    rw [← hhandA, ← hhandB, hsame]

theorem AtMostOneActive.deactivate (h : r.AtMostOneActive) (instanceId : Uuid) :
    (r.deactivate instanceId).1.AtMostOneActive := by
  rw [HandRegistry.deactivate]
  split
  · exact h
  · intro i j a b ha hb
    rw [lookup_erase] at ha hb
    split at ha
    · cases ha
    split at hb
    · cases hb
    exact h i j a b ha hb

/-- A hand is activated only when none of its instances is active. -/
theorem AtMostOneActive.activate (h : r.AtMostOneActive) (handId : Str) (config : HandConfig)
    (instanceId : Uuid) (now : DateTime) :
    (r.activate handId config instanceId now).1.AtMostOneActive := by
  rw [HandRegistry.activate]
  split
  · exact h
  split
  · exact h
  rename_i hrunning
  have hnone : ∀ i a, r.instances.lookup i = some a → a.status = .active → a.handId ≠ handId :=
    fun i a ha hactive hhand => hrunning (running_iff.mpr ⟨i, a, ha, hhand, hactive⟩)
  intro i j a b ha hb hactiveA hactiveB hsame
  rw [lookup_insert] at ha hb
  by_cases hi : i = instanceId <;> by_cases hj : j = instanceId
  · rw [hi, hj]
  · rw [if_pos hi] at ha
    rw [if_neg hj] at hb
    cases ha
    exact absurd hsame.symm (hnone j b hb hactiveB)
  · rw [if_neg hi] at ha
    rw [if_pos hj] at hb
    cases hb
    exact absurd hsame (hnone i a ha hactiveA)
  · rw [if_neg hi] at ha
    rw [if_neg hj] at hb
    exact h i j a b ha hb hactiveA hactiveB hsame

theorem atMostOneActive_resume (h : r.AtMostOneActive) :
    (r.resume instanceId now).1.AtMostOneActive ↔ r.Alone (.resume instanceId now) := by
  rw [resume, update]
  cases hlookup : r.instances.lookup instanceId with
  | none => exact ⟨fun _ a ha => absurd (hlookup.symm.trans ha) nofun, fun _ => h⟩
  | some resumed =>
    simp only
    constructor
    · intro hafter a ha j b hb hactive hhand
      by_cases hj : j = instanceId
      · exact hj
      · refine hafter j instanceId b { a with status := .active, updatedAt := now } ?_ ?_ hactive
          rfl hhand
        · rw [lookup_adjust, if_neg hj, hb]
        · rw [lookup_adjust, if_pos rfl, ha]
          rfl
    · intro halone i j a b ha hb hactiveA hactiveB hsame
      rw [lookup_adjust] at ha hb
      by_cases hi : i = instanceId <;> by_cases hj : j = instanceId
      · rw [hi, hj]
      · rw [if_pos hi, hi, hlookup] at ha
        rw [if_neg hj] at hb
        cases ha
        exact absurd (halone resumed hlookup j b hb hactiveB hsame.symm) hj
      · rw [if_neg hi] at ha
        rw [if_pos hj, hj, hlookup] at hb
        cases hb
        exact absurd (halone resumed hlookup i a ha hactiveA hsame) hi
      · rw [if_neg hi] at ha
        rw [if_neg hj] at hb
        exact h i j a b ha hb hactiveA hactiveB hsame

theorem atMostOneActive_step (r : HandRegistry) (op : Op) (h : r.AtMostOneActive) :
    (step r op).1.AtMostOneActive ↔ r.Alone op := by
  cases op with
  | activate handId config instanceId now =>
    exact iff_of_true (h.activate handId config instanceId now) trivial
  | deactivate instanceId => exact iff_of_true (h.deactivate instanceId) trivial
  | pause instanceId now =>
    exact iff_of_true (h.update instanceId (fun _ => rfl) nofun) trivial
  | resume instanceId now => exact atMostOneActive_resume h
  | setAgent instanceId agentId now =>
    exact iff_of_true (h.update instanceId (fun _ => rfl) fun _ => id) trivial
  | setError instanceId message now =>
    exact iff_of_true (h.update instanceId (fun _ => rfl) nofun) trivial

theorem atMostOneActive_start {definitions : Map Str HandDefinition} :
    (start definitions).AtMostOneActive := by
  intro i j a b ha
  simp [start] at ha

/-- A run keeps at most one instance of each hand active all along exactly when it resumes an
instance only while no other instance of its hand is active. -/
theorem forall_prefix_atMostOneActive (h : r.AtMostOneActive) (ops : List Op) :
    (∀ before, before <+: ops → (run step r before).1.AtMostOneActive) ↔
      Allowed step Alone r ops :=
  forall_prefix_iff_allowed step atMostOneActive_step h ops

end Active

end HandRegistry

end Clawreform.Hands
