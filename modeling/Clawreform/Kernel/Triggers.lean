import Clawreform.Lib.Index
import Clawreform.Lib.Run
import Clawreform.Types.Event

namespace Clawreform.Kernel

open Clawreform.Lib Clawreform.Lib.Text Clawreform.Lib.Run Clawreform.Lib.Store
open Clawreform.Lib.Index Clawreform.Types

abbrev TriggerId := Uuid

inductive TriggerPattern where
  | lifecycle
  | agentSpawned (namePattern : Str)
  | agentTerminated
  | system
  | systemKeyword (keyword : Str)
  | memoryUpdate
  | memoryKeyPattern (keyPattern : Str)
  | all
  | contentMatch (substring : Str)
  deriving DecidableEq

structure Trigger where
  id : TriggerId
  agentId : AgentId
  pattern : TriggerPattern
  promptTemplate : Str
  enabled : Bool
  createdAt : DateTime
  fireCount : UInt64
  maxFires : UInt64
  deriving DecidableEq

structure TriggerEngine where
  triggers : Map TriggerId Trigger
  agentTriggers : Map AgentId (List TriggerId)
  deriving DecidableEq

/-- The lowercase mapping of texts, the derived debug texts and the decimal
forms of floats with a number of places. -/
structure Rendering where
  toLowercase : Str → Str
  debugSystemEvent : SystemEvent → Str
  debugNetworkEvent : NetworkEvent → Str
  fixed32 : Nat → Float32Bits → Str
  fixed64 : Nat → Binary64 → Str

namespace Rendering

variable (R : Rendering)

def debugRole : MessageRole → Str
  | .user => "User".toList
  | .agent => "Agent".toList
  | .system => "System".toList
  | .tool => "Tool".toList

def debugOperation : MemoryOperation → Str
  | .created => "Created".toList
  | .updated => "Updated".toList
  | .deleted => "Deleted".toList

def describeLifecycle : LifecycleEvent → Str
  | .spawned agentId name =>
    "Agent '".toList ++ name ++ "' (id: ".toList ++ agentId.toStr ++ ") was spawned".toList
  | .started agentId => "Agent ".toList ++ agentId.toStr ++ " started".toList
  | .suspended agentId => "Agent ".toList ++ agentId.toStr ++ " suspended".toList
  | .resumed agentId => "Agent ".toList ++ agentId.toStr ++ " resumed".toList
  | .terminated agentId reason =>
    "Agent ".toList ++ agentId.toStr ++ " terminated: ".toList ++ reason
  | .crashed agentId error => "Agent ".toList ++ agentId.toStr ++ " crashed: ".toList ++ error

def describeSystem : SystemEvent → Str
  | .kernelStarted => "Kernel started".toList
  | .kernelStopping => "Kernel stopping".toList
  | .quotaWarning agentId resource usagePercent =>
    "Quota warning: agent ".toList ++ agentId.toStr ++ ", ".toList ++ resource ++ " at ".toList ++
      R.fixed32 1 usagePercent ++ "%".toList
  | .healthCheck status => "Health check: ".toList ++ status
  | .quotaEnforced agentId spent limit =>
    "Quota enforced: agent ".toList ++ agentId.toStr ++ ", spent $".toList ++ R.fixed64 4 spent ++
      " / $".toList ++ R.fixed64 4 limit
  | .modelRouted agentId complexity model =>
    "Model routed: agent ".toList ++ agentId.toStr ++ ", complexity=".toList ++ complexity ++
      ", model=".toList ++ model
  | .userAction userId action result =>
    "User action: ".toList ++ userId ++ " ".toList ++ action ++ " -> ".toList ++ result
  | .healthCheckFailed agentId unresponsiveSecs =>
    "Health check failed: agent ".toList ++ agentId.toStr ++ ", unresponsive for ".toList ++
      showNat unresponsiveSecs.toNat ++ "s".toList

/-- Nothing when the cut at 200 bytes of a tool result falls inside a character:
the slice panics. -/
def describeEvent (event : Event) : Option Str :=
  match event.payload with
  | .message msg => some ("Message from ".toList ++ debugRole msg.role ++ ": ".toList ++ msg.content)
  | .toolResult tr =>
    (splitBytes (min (byteLen tr.content) 200) tr.content).map fun content =>
      "Tool '".toList ++ tr.toolId ++ "' ".toList ++
        (if tr.success then "succeeded".toList else "failed".toList) ++ " (".toList ++
        showNat tr.executionTimeMs.toNat ++ "ms): ".toList ++ content.1
  | .memoryUpdate delta =>
    some ("Memory ".toList ++ debugOperation delta.operation ++ " on key '".toList ++ delta.key ++
      "' for agent ".toList ++ delta.agentId.toStr)
  | .lifecycle le => some (describeLifecycle le)
  | .network ne => some ("Network event: ".toList ++ R.debugNetworkEvent ne)
  | .system se => some (R.describeSystem se)
  | .custom data => some ("Custom event (".toList ++ showNat data.length ++ " bytes)".toList)

def matchesPattern (pattern : TriggerPattern) (event : Event) (description : Str) : Bool :=
  match pattern, event.payload with
  | .all, _ => true
  | .lifecycle, .lifecycle _ => true
  | .agentSpawned namePattern, .lifecycle (.spawned _ name) =>
    contains name namePattern || namePattern = ['*']
  | .agentTerminated, .lifecycle (.terminated _ _) => true
  | .agentTerminated, .lifecycle (.crashed _ _) => true
  | .system, .system _ => true
  | .systemKeyword keyword, .system se =>
    contains (R.toLowercase (R.debugSystemEvent se)) (R.toLowercase keyword)
  | .memoryUpdate, .memoryUpdate _ => true
  | .memoryKeyPattern keyPattern, .memoryUpdate delta =>
    contains delta.key keyPattern || keyPattern = ['*']
  | .contentMatch substring, _ => contains (R.toLowercase description) (R.toLowercase substring)
  | _, _ => false

end Rendering

namespace TriggerEngine

def new : TriggerEngine where
  triggers := ∅
  agentTriggers := ∅

variable (R : Rendering) (s : TriggerEngine)

/-- `id` is the new trigger's random id. -/
def register (agentId : AgentId) (pattern : TriggerPattern) (promptTemplate : Str)
    (maxFires : UInt64) (id : TriggerId) (now : DateTime) : TriggerEngine where
  triggers := s.triggers.insert id
    { id := id, agentId := agentId, pattern := pattern, promptTemplate := promptTemplate
      enabled := true, createdAt := now, fireCount := 0, maxFires := maxFires }
  agentTriggers := push id s.agentTriggers agentId

def remove (triggerId : TriggerId) : TriggerEngine × Bool :=
  match s.triggers.lookup triggerId with
  | some trigger =>
    ({ triggers := s.triggers.erase triggerId
       agentTriggers := strike triggerId s.agentTriggers trigger.agentId }, true)
  | none => (s, false)

def removeAgentTriggers (agentId : AgentId) : TriggerEngine where
  triggers := (listed s.agentTriggers agentId).foldl (fun m id => m.erase id) s.triggers
  agentTriggers := s.agentTriggers.erase agentId

def setEnabled (triggerId : TriggerId) (enabled : Bool) : TriggerEngine × Bool :=
  ({ s with triggers := adjust triggerId (fun t => { t with enabled := enabled }) s.triggers },
    triggerId ∈ s.triggers)

def get (triggerId : TriggerId) : Option Trigger := s.triggers.lookup triggerId

/-- What one trigger does about an event: how it is left and what it sends. -/
def fire (event : Event) (description : Str) (trigger : Trigger) :
    Trigger × Option (AgentId × Str) :=
  if !trigger.enabled then (trigger, none)
  else if 0 < trigger.maxFires ∧ trigger.maxFires ≤ trigger.fireCount then
    ({ trigger with enabled := false }, none)
  else if R.matchesPattern trigger.pattern event description then
    ({ trigger with fireCount := trigger.fireCount + 1 },
      some (trigger.agentId,
        replaceText trigger.promptTemplate "\x7b\x7bevent\x7d\x7d".toList description))
  else (trigger, none)

/-- The messages of an event, each with the trigger that sends it. -/
def firings (event : Event) (description : Str) : List (TriggerId × AgentId × Str) :=
  s.triggers.entries.filterMap fun e =>
    (fire R event description e.2).2.map fun message => (e.1, message)

/-- Nothing when describing the event panics, which is before any trigger is touched. -/
def evaluateFirings (event : Event) : Option (TriggerEngine × List (TriggerId × AgentId × Str)) :=
  (R.describeEvent event).map fun description =>
    ({ s with triggers := mapValues (fun _ t => (fire R event description t).1) s.triggers },
      s.firings R event description)

def evaluate (event : Event) : Option (TriggerEngine × List (AgentId × Str)) :=
  (s.evaluateFirings R event).map fun p => (p.1, p.2.map Prod.snd)

inductive Op where
  | register (agentId : AgentId) (pattern : TriggerPattern) (promptTemplate : Str)
      (maxFires : UInt64) (id : TriggerId) (now : DateTime)
  | remove (triggerId : TriggerId)
  | removeAgentTriggers (agentId : AgentId)
  | setEnabled (triggerId : TriggerId) (enabled : Bool)
  | evaluate (event : Event)
  deriving DecidableEq

/-- One operation, and what it fires. -/
def step (s : TriggerEngine) : Op → TriggerEngine × List (TriggerId × AgentId × Str)
  | .register agentId pattern promptTemplate maxFires id now =>
    (s.register agentId pattern promptTemplate maxFires id now, [])
  | .remove triggerId => ((s.remove triggerId).1, [])
  | .removeAgentTriggers agentId => (s.removeAgentTriggers agentId, [])
  | .setEnabled triggerId enabled => ((s.setEnabled triggerId enabled).1, [])
  | .evaluate event => (s.evaluateFirings R event).getD (s, [])

/-- The id a new trigger gets, with its limit. -/
def Op.issued : Op → Option (TriggerId × UInt64)
  | .register _ _ _ maxFires id _ => some (id, maxFires)
  | .remove _ | .removeAgentTriggers _ | .setEnabled _ _ | .evaluate _ => none

/-- How many messages were sent for a trigger. -/
def emitted (id : TriggerId) (fired : List (TriggerId × AgentId × Str)) : Nat :=
  fired.countP fun f => f.1 = id

theorem emitted_append (id : TriggerId) (fired more : List (TriggerId × AgentId × Str)) :
    emitted id (fired ++ more) = emitted id fired + emitted id more :=
  List.countP_append

def owners (trigger : Trigger) : List AgentId := [trigger.agentId]

/-- What holds after any run in which the triggers in `issued` were registered
and the messages `fired` were sent. -/
structure Tracked (issued : List (TriggerId × UInt64)) (s : TriggerEngine)
    (fired : List (TriggerId × AgentId × Str)) : Prop where
  once : (issued.map Prod.fst).Nodup
  indexed : Indexed owners s.agentTriggers s.triggers
  nodup : ∀ agentId, (listed s.agentTriggers agentId).Nodup
  stored : ∀ id t, s.triggers.lookup id = some t → (id, t.maxFires) ∈ issued
  known : ∀ f ∈ fired, f.1 ∈ issued.map Prod.fst
  counted : ∀ id t, s.triggers.lookup id = some t →
    t.fireCount.toNat = emitted id fired % 2 ^ 64
  limited : ∀ id m, (id, m) ∈ issued → 0 < m → emitted id fired ≤ m.toNat

variable {R s} {issued : List (TriggerId × UInt64)} {fired : List (TriggerId × AgentId × Str)}

theorem limit_unique {id : TriggerId} {m n : UInt64} (h : (issued.map Prod.fst).Nodup)
    (hm : (id, m) ∈ issued) (hn : (id, n) ∈ issued) : m = n :=
  congrArg Prod.snd (List.inj_on_of_nodup_map h hm hn rfl)

theorem new_tracked : Tracked [] new [] where
  once := List.nodup_nil
  indexed := indexed_empty
  nodup := by simp [new]
  stored := by simp [new]
  known := by simp
  counted := by simp [new]
  limited := by simp

theorem Tracked.emitted_eq_zero (h : Tracked issued s fired) {id : TriggerId}
    (hid : id ∉ issued.map Prod.fst) : emitted id fired = 0 := by
  apply List.countP_eq_zero.mpr
  intro f hf he
  exact hid (of_decide_eq_true he ▸ h.known f hf)

theorem Tracked.register (h : Tracked issued s fired) {id : TriggerId} {maxFires : UInt64}
    (hid : id ∉ issued.map Prod.fst) (agentId : AgentId) (pattern : TriggerPattern)
    (promptTemplate : Str) (now : DateTime) :
    Tracked (issued ++ [(id, maxFires)])
      (s.register agentId pattern promptTemplate maxFires id now) fired := by
  have hnew : id ∉ s.triggers := by
    intro hm
    obtain ⟨t, ht⟩ := Option.isSome_iff_exists.mp (AList.lookup_isSome.mpr hm)
    exact hid (List.mem_map_of_mem (h.stored id t ht))
  refine ⟨?_, ?_, ?_, ?_, ?_, ?_, ?_⟩
  · rw [List.map_append]
    refine List.Nodup.append h.once (List.nodup_singleton id) ?_
    rwa [List.map_singleton, List.disjoint_singleton]
  · exact h.indexed.insert hnew (Trigger.mk id agentId pattern promptTemplate true now 0 maxFires)
  · intro a
    rw [TriggerEngine.register, listed_push]
    split
    · rename_i ha
      refine List.Nodup.append (h.nodup _) (List.nodup_singleton id) ?_
      rw [List.disjoint_singleton]
      intro hm
      obtain ⟨t, ht, -⟩ := (h.indexed agentId id).mp hm
      exact hnew (AList.lookup_isSome.mp (by rw [ht]; rfl))
    · exact h.nodup a
  · intro j t ht
    rw [TriggerEngine.register, lookup_insert] at ht
    split at ht
    · cases ht
      simp [*]
    · exact List.mem_append_left _ (h.stored j t ht)
  · intro f hf
    rw [List.map_append]
    exact List.mem_append_left _ (h.known f hf)
  · intro j t ht
    rw [TriggerEngine.register, lookup_insert] at ht
    split at ht
    · rename_i hj
      cases ht
      rw [hj, h.emitted_eq_zero hid]
      rfl
    · exact h.counted j t ht
  · intro j m hj hm
    rcases List.mem_append.mp hj with hj | hj
    · exact h.limited j m hj hm
    · obtain ⟨rfl, rfl⟩ := Prod.mk.inj (List.mem_singleton.mp hj)
      rw [h.emitted_eq_zero hid]
      exact Nat.zero_le _

/-- Taking triggers out keeps what is known of the others. -/
theorem Tracked.shrink (h : Tracked issued s fired) {t : TriggerEngine}
    (hindexed : Indexed owners t.agentTriggers t.triggers)
    (hnodup : ∀ a, (listed t.agentTriggers a).Nodup)
    (hsub : ∀ id trigger, t.triggers.lookup id = some trigger →
      s.triggers.lookup id = some trigger) : Tracked issued t fired :=
  ⟨h.once, hindexed, hnodup, fun id trigger ht => h.stored id trigger (hsub id trigger ht), h.known,
    fun id trigger ht => h.counted id trigger (hsub id trigger ht), h.limited⟩

theorem Tracked.remove (h : Tracked issued s fired) (id : TriggerId) :
    Tracked issued (s.remove id).1 fired := by
  rw [TriggerEngine.remove]
  split
  · rename_i trigger htrigger
    refine h.shrink (h.indexed.erase htrigger) ?_ ?_
    · intro a
      rw [listed_strike]
      split
      · exact (h.nodup _).filter _
      · exact h.nodup a
    · intro j t ht
      rw [lookup_erase] at ht
      split at ht
      · cases ht
      · exact ht
  · exact h

/-- What is left is what the other agents have. -/
theorem lookup_removeAgentTriggers (h : Indexed owners s.agentTriggers s.triggers)
    (agentId : AgentId) (id : TriggerId) (t : Trigger) :
    (s.removeAgentTriggers agentId).triggers.lookup id = some t ↔
      s.triggers.lookup id = some t ∧ t.agentId ≠ agentId := by
  rw [removeAgentTriggers, lookup_eraseAll]
  split
  · rename_i hid
    obtain ⟨t', ht', ha⟩ := (h agentId id).mp hid
    rw [owners, List.mem_singleton] at ha
    simp only [ht', Option.some.injEq, reduceCtorEq, false_iff, not_and, not_not]
    rintro rfl
    exact ha.symm
  · rename_i hid
    constructor
    · intro ht
      refine ⟨ht, fun ha => hid ((h agentId id).mpr ⟨t, ht, ?_⟩)⟩
      rw [owners, ha]
      exact List.mem_singleton_self _
    · exact fun ht => ht.1

theorem indexed_removeAgentTriggers (h : Indexed owners s.agentTriggers s.triggers)
    (agentId : AgentId) : Indexed owners (s.removeAgentTriggers agentId).agentTriggers
      (s.removeAgentTriggers agentId).triggers := by
  have hleft := lookup_removeAgentTriggers h agentId
  intro a id
  rw [removeAgentTriggers, listed_erase]
  split
  · rename_i ha
    simp only [List.not_mem_nil, false_iff, not_exists, not_and]
    intro t ht hm
    rw [owners, List.mem_singleton] at hm
    exact ((hleft id t).mp ht).2 (hm.symm.trans ha)
  · rename_i ha
    rw [h a id]
    constructor
    · rintro ⟨t, ht, hm⟩
      refine ⟨t, (hleft id t).mpr ⟨ht, ?_⟩, hm⟩
      rw [owners, List.mem_singleton] at hm
      exact fun he => ha (hm.trans he)
    · rintro ⟨t, ht, hm⟩
      exact ⟨t, ((hleft id t).mp ht).1, hm⟩

theorem Tracked.removeAgentTriggers (h : Tracked issued s fired) (agentId : AgentId) :
    Tracked issued (s.removeAgentTriggers agentId) fired := by
  have hleft := lookup_removeAgentTriggers h.indexed agentId
  refine h.shrink (indexed_removeAgentTriggers h.indexed agentId) ?_
    (fun id t ht => ((hleft id t).mp ht).1)
  · intro a
    rw [TriggerEngine.removeAgentTriggers, listed_erase]
    split
    · exact List.nodup_nil
    · exact h.nodup a

theorem Tracked.setEnabled (h : Tracked issued s fired) (id : TriggerId) (enabled : Bool) :
    Tracked issued (s.setEnabled id enabled).1 fired := by
  have hsame : ∀ j t, (s.setEnabled id enabled).1.triggers.lookup j = some t →
      ∃ t', s.triggers.lookup j = some t' ∧ t'.maxFires = t.maxFires ∧
        t'.fireCount = t.fireCount := by
    intro j t ht
    rw [TriggerEngine.setEnabled, lookup_adjust] at ht
    split at ht
    · obtain ⟨t', ht', rfl⟩ := Option.map_eq_some_iff.mp ht
      exact ⟨t', ht', rfl, rfl⟩
    · exact ⟨t, ht, rfl, rfl⟩
  refine ⟨h.once, h.indexed.adjust fun _ => rfl, h.nodup, ?_, h.known, ?_, h.limited⟩
  · intro j t ht
    obtain ⟨t', ht', hm, -⟩ := hsame j t ht
    exact hm ▸ h.stored j t' ht'
  · intro j t ht
    obtain ⟨t', ht', -, hc⟩ := hsame j t ht
    exact hc ▸ h.counted j t' ht'

@[simp] theorem fire_agentId (event : Event) (description : Str) (t : Trigger) :
    (fire R event description t).1.agentId = t.agentId := by
  rw [fire]
  split
  · rfl
  · split
    · rfl
    · split <;> rfl

@[simp] theorem fire_maxFires (event : Event) (description : Str) (t : Trigger) :
    (fire R event description t).1.maxFires = t.maxFires := by
  rw [fire]
  split
  · rfl
  · split
    · rfl
    · split <;> rfl

/-- A trigger sends one message and counts it, below its limit, or sends none. -/
theorem fire_cases (event : Event) (description : Str) (t : Trigger) :
    (∃ message, (fire R event description t).2 = some message ∧
      (fire R event description t).1.fireCount = t.fireCount + 1 ∧
      (0 < t.maxFires → t.fireCount < t.maxFires)) ∨
    (fire R event description t).2 = none ∧
      (fire R event description t).1.fireCount = t.fireCount := by
  rw [fire]
  split
  · exact .inr ⟨rfl, rfl⟩
  · split
    · exact .inr ⟨rfl, rfl⟩
    · rename_i hmax
      split
      · refine .inl ⟨_, rfl, rfl, fun hpos => ?_⟩
        exact UInt64.not_le.mp fun hle => hmax ⟨hpos, hle⟩
      · exact .inr ⟨rfl, rfl⟩

theorem emitted_firings (event : Event) (description : Str) (id : TriggerId) :
    emitted id (s.firings R event description) =
      ((s.triggers.lookup id).bind fun t => (fire R event description t).2).toList.length :=
  countP_yields (fun t => (fire R event description t).2) s.triggers id

theorem Tracked.evaluate (h : Tracked issued s fired) (event : Event) (description : Str) :
    Tracked issued
      { s with triggers := mapValues (fun _ t => (fire R event description t).1) s.triggers }
      (fired ++ s.firings R event description) := by
  have howners : ∀ (_ : TriggerId) t, owners (fire R event description t).1 = owners t := by
    intro _ t
    rw [owners, owners, fire_agentId]
  refine ⟨h.once, h.indexed.mapValues howners, h.nodup, ?_, ?_, ?_, ?_⟩
  · intro id t ht
    rw [lookup_mapValues] at ht
    obtain ⟨t', ht', rfl⟩ := Option.map_eq_some_iff.mp ht
    rw [fire_maxFires]
    exact h.stored id t' ht'
  · intro f hf
    rcases List.mem_append.mp hf with hf | hf
    · exact h.known f hf
    · obtain ⟨e, he, hfe⟩ := List.mem_filterMap.mp hf
      obtain ⟨message, -, rfl⟩ := Option.map_eq_some_iff.mp hfe
      exact List.mem_map_of_mem (h.stored e.1 e.2 (mem_entries.mp he))
  · intro id t ht
    rw [lookup_mapValues] at ht
    obtain ⟨t', ht', rfl⟩ := Option.map_eq_some_iff.mp ht
    have hcount := h.counted id t' ht'
    rw [emitted_append, emitted_firings, ht', Option.bind_some]
    rcases fire_cases (R := R) event description t' with ⟨message, hm, hc, -⟩ | ⟨hm, hc⟩
    · rw [hm, hc, UInt64.toNat_add, hcount]
      simp
    · rw [hm, hc, hcount]
      simp
  · intro id m hid hm
    rw [emitted_append, emitted_firings]
    have hlim := h.limited id m hid hm
    cases ht : s.triggers.lookup id with
    | none => simpa using hlim
    | some t =>
      have hm' : m = t.maxFires := limit_unique h.once hid (h.stored id t ht)
      have hcount := h.counted id t ht
      rw [Option.bind_some]
      rcases fire_cases (R := R) event description t with ⟨message, hmes, -, hlt⟩ | ⟨hmes, -⟩
      · -- below the limit the counter has not wrapped
        have hlt' := UInt64.lt_iff_toNat_lt.mp (hlt (hm' ▸ hm))
        have hsize := m.toNat_lt
        rw [hcount, Nat.mod_eq_of_lt (by omega), ← hm'] at hlt'
        rw [hmes]
        exact hlt'
      · rw [hmes]
        exact hlim

theorem Tracked.step (h : Tracked issued s fired) {op : Op}
    (hop : ∀ p ∈ op.issued, p.1 ∉ issued.map Prod.fst) :
    Tracked (issued ++ op.issued.toList) (step R s op).1 (fired ++ (step R s op).2) := by
  cases op with
  | register agentId pattern promptTemplate maxFires id now =>
    rw [show fired ++ (TriggerEngine.step R s _).2 = fired from List.append_nil _]
    exact h.register (hop _ rfl) agentId pattern promptTemplate now
  | remove id =>
    rw [Op.issued, Option.toList_none, List.append_nil, TriggerEngine.step, List.append_nil]
    exact h.remove id
  | removeAgentTriggers agentId =>
    rw [Op.issued, Option.toList_none, List.append_nil, TriggerEngine.step, List.append_nil]
    exact h.removeAgentTriggers agentId
  | setEnabled id enabled =>
    rw [Op.issued, Option.toList_none, List.append_nil, TriggerEngine.step, List.append_nil]
    exact h.setEnabled id enabled
  | evaluate event =>
    rw [Op.issued, Option.toList_none, List.append_nil, TriggerEngine.step, evaluateFirings]
    cases R.describeEvent event with
    | none => simpa using h
    | some description => exact h.evaluate event description

theorem run_tracked {ops : List Op} (hops : ((ops.filterMap Op.issued).map Prod.fst).Nodup) :
    Tracked (ops.filterMap Op.issued) (run (step R) new ops).1 (run (step R) new ops).2 := by
  induction ops using List.reverseRecOn with
  | nil => exact new_tracked
  | append_singleton ops op ih =>
    rw [List.filterMap_append, List.map_append] at hops
    have h := ih hops.of_append_left
    have hone : List.filterMap Op.issued [op] = op.issued.toList := by
      cases hi : op.issued <;> simp [hi]
    rw [List.filterMap_append, hone, run_append, run_cons, run_nil, List.append_nil]
    apply h.step
    intro p hp hmem
    refine List.disjoint_of_nodup_append hops hmem ?_
    rw [hone, Option.mem_def.mp hp]
    exact List.mem_singleton_self _

/-- After every run of operations the index lists each agent's triggers once,
every counter tells how many messages its trigger sent, limits are kept, and an
agent's removal touches nobody else's triggers. -/
theorem run_invariants (R : Rendering) (ops : List Op)
    (hops : ((ops.filterMap Op.issued).map Prod.fst).Nodup) :
    let s := (run (step R) new ops).1
    let fired := (run (step R) new ops).2
    (∀ agentId, (listed s.agentTriggers agentId).Nodup ∧ ∀ id,
      id ∈ listed s.agentTriggers agentId ↔ ∃ t, s.get id = some t ∧ t.agentId = agentId) ∧
    (∀ id t, s.get id = some t → t.fireCount.toNat = emitted id fired % 2 ^ 64) ∧
    (∀ id maxFires, (id, maxFires) ∈ ops.filterMap Op.issued → 0 < maxFires →
      emitted id fired ≤ maxFires.toNat) ∧
    (∀ agentId id t, (s.removeAgentTriggers agentId).get id = some t ↔
      s.get id = some t ∧ t.agentId ≠ agentId) ∧
    ∀ agentId other, other ≠ agentId →
      listed (s.removeAgentTriggers agentId).agentTriggers other =
        listed s.agentTriggers other := by
  intro s fired
  have h : Tracked (ops.filterMap Op.issued) s fired := run_tracked hops
  refine ⟨?_, h.counted, h.limited, lookup_removeAgentTriggers h.indexed, ?_⟩
  · intro agentId
    refine ⟨h.nodup agentId, fun id => ?_⟩
    rw [h.indexed agentId id]
    simp [owners, get, eq_comm]
  · intro agentId other hne
    rw [removeAgentTriggers, listed_erase, if_neg hne]

/-- Renderings that lower and print nothing. -/
def plainRendering : Rendering where
  toLowercase := id
  debugSystemEvent _ := []
  debugNetworkEvent _ := []
  fixed32 _ _ := []
  fixed64 _ _ := []

def kernelStarted : Event := ⟨.system .kernelStarted⟩

/-- A trigger that may fire once, enabled again after it did. -/
def limited : List Op :=
  [.register 2 .all "wake up".toList 1 1 0, .evaluate kernelStarted, .evaluate kernelStarted,
    .setEnabled 1 true, .evaluate kernelStarted]

theorem run_invariants_limited :
    ((limited.filterMap Op.issued).map Prod.fst).Nodup ∧
    emitted 1 (run (step plainRendering) new limited).2 ≤ (1 : UInt64).toNat :=
  ⟨by decide,
    (run_invariants plainRendering limited (by decide)).2.2.1 1 1 (by decide) (by decide)⟩

/-- A trigger on all events without a limit, and a number of events. -/
def alarms (n : Nat) : List Op :=
  .register 2 .all "wake up".toList 0 1 0 :: List.replicate n (.evaluate kernelStarted)

/-- The engine when that trigger has fired a number of times. -/
def watching (fireCount : UInt64) : TriggerEngine where
  triggers := AList.singleton 1 ⟨1, 2, .all, "wake up".toList, true, 0, fireCount, 0⟩
  agentTriggers := AList.singleton 2 [1]

theorem step_watching (fireCount : UInt64) :
    step plainRendering (watching fireCount) (.evaluate kernelStarted) =
      (watching (fireCount + 1), [(1, 2, "wake up".toList)]) := by
  rfl

theorem run_alarms (n : Nat) : run (step plainRendering) new (alarms n) =
    (watching (UInt64.ofNat n), List.replicate n (1, 2, "wake up".toList)) := by
  have hrun : ∀ c, run (step plainRendering) (watching c)
      (List.replicate n (.evaluate kernelStarted)) =
        (watching (c + UInt64.ofNat n), List.replicate n (1, 2, "wake up".toList)) := by
    induction n with
    | zero =>
      intro c
      rw [List.replicate_zero, run_nil, List.replicate_zero]
      simp
    | succ n ih =>
      intro c
      rw [List.replicate_succ, run_cons, step_watching, ih, List.replicate_succ,
        List.singleton_append, UInt64.ofNat_add, UInt64.add_assoc, UInt64.add_comm 1]
      rfl
  rw [alarms, run_cons]
  have h := hrun 0
  rw [UInt64.zero_add] at h
  exact h

/-- After 2^64 messages the counter is back at 0. -/
theorem fireCount_wraps :
    (∃ t, (run (step plainRendering) new (alarms (2 ^ 64))).1.get 1 = some t ∧
      t.fireCount = 0) ∧
    emitted 1 (run (step plainRendering) new (alarms (2 ^ 64))).2 = 2 ^ 64 := by
  rw [run_alarms]
  refine ⟨⟨_, rfl, rfl⟩, ?_⟩
  rw [emitted, List.countP_replicate]
  rfl

end TriggerEngine

end Clawreform.Kernel
