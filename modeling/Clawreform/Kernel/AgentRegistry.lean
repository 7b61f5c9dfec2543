import Clawreform.Lib.Index
import Clawreform.Lib.Run
import Clawreform.Types.Agent

namespace Clawreform.Kernel

open Clawreform.Lib.Text Clawreform.Lib.Run Clawreform.Lib.Store Clawreform.Lib.Index
open Clawreform.Types

structure AgentRegistry where
  agents : Map AgentId AgentEntry
  nameIndex : Map Str AgentId
  tagIndex : Map Str (List AgentId)
  deriving DecidableEq

namespace AgentRegistry

def new : AgentRegistry where
  agents := ∅
  nameIndex := ∅
  tagIndex := ∅

variable (r : AgentRegistry)

def register (entry : AgentEntry) : AgentRegistry × Except ClawReformError Unit :=
  if entry.name ∈ r.nameIndex then (r, .error (.agentAlreadyExists entry.name))
  else
    ({ agents := r.agents.insert entry.id entry
       nameIndex := r.nameIndex.insert entry.name entry.id
       tagIndex := entry.tags.foldl (push entry.id) r.tagIndex }, .ok ())

def get (id : AgentId) : Option AgentEntry := r.agents.lookup id

def findByName (name : Str) : Option AgentEntry :=
  (r.nameIndex.lookup name).bind r.get

/-- Every setter looks the agent up and changes its entry in place. -/
def update (id : AgentId) (f : AgentEntry → AgentEntry) :
    AgentRegistry × Except ClawReformError Unit :=
  match r.agents.lookup id with
  | some _ => ({ r with agents := adjust id f r.agents }, .ok ())
  | none => (r, .error (.agentNotFound id.toStr))

def setState (id : AgentId) (state : AgentState) (now : DateTime) :=
  r.update id fun entry => { entry with state := state, lastActive := now }

def setMode (id : AgentId) (mode : AgentMode) (now : DateTime) :=
  r.update id fun entry => { entry with mode := mode, lastActive := now }

def remove (id : AgentId) : AgentRegistry × Except ClawReformError AgentEntry :=
  match r.agents.lookup id with
  | some entry =>
    ({ agents := r.agents.erase id
       nameIndex := r.nameIndex.erase entry.name
       tagIndex := entry.tags.foldl (strike id) r.tagIndex }, .ok entry)
  | none => (r, .error (.agentNotFound id.toStr))

def addChild (parentId childId : AgentId) : AgentRegistry :=
  { r with
    agents := adjust parentId
      (fun entry => { entry with children := entry.children ++ [childId] }) r.agents }

def updateSessionId (id : AgentId) (newSessionId : SessionId) (now : DateTime) :=
  r.update id fun entry => { entry with sessionId := newSessionId, lastActive := now }

def updateWorkspace (id : AgentId) (workspace : Option Str) (now : DateTime) :=
  r.update id fun entry =>
    { entry with manifest.workspace := workspace, lastActive := now }

def updateIdentity (id : AgentId) (identity : AgentIdentity) (now : DateTime) :=
  r.update id fun entry => { entry with identity := identity, lastActive := now }

def updateModel (id : AgentId) (newModel : Str) (now : DateTime) :=
  r.update id fun entry =>
    { entry with manifest.model.model := newModel, lastActive := now }

def updateModelAndProvider (id : AgentId) (newModel newProvider : Str) (now : DateTime) :=
  r.update id fun entry =>
    { entry with
      manifest.model.model := newModel, manifest.model.provider := newProvider
      lastActive := now }

def updateSkills (id : AgentId) (skills : List Str) (now : DateTime) :=
  r.update id fun entry => { entry with manifest.skills := skills, lastActive := now }

def updateMcpServers (id : AgentId) (servers : List Str) (now : DateTime) :=
  r.update id fun entry => { entry with manifest.mcpServers := servers, lastActive := now }

def updateSystemPrompt (id : AgentId) (newPrompt : Str) (now : DateTime) :=
  r.update id fun entry =>
    { entry with manifest.model.systemPrompt := newPrompt, lastActive := now }

def rename (newName : Str) (now : DateTime) (entry : AgentEntry) : AgentEntry :=
  { entry with name := newName, manifest.name := newName, lastActive := now }

/-- A name in use is refused, the agent's own included. -/
def updateName (id : AgentId) (newName : Str) (now : DateTime) :
    AgentRegistry × Except ClawReformError Unit :=
  if newName ∈ r.nameIndex then (r, .error (.agentAlreadyExists newName))
  else
    match r.agents.lookup id with
    | some entry =>
      ({ r with
         agents := adjust id (rename newName now) r.agents
         nameIndex := (r.nameIndex.erase entry.name).insert newName id }, .ok ())
    | none => (r, .error (.agentNotFound id.toStr))

def updateDescription (id : AgentId) (newDesc : Str) (now : DateTime) :=
  r.update id fun entry => { entry with manifest.description := newDesc, lastActive := now }

def markOnboardingComplete (id : AgentId) (completed now : DateTime) :=
  r.update id fun entry =>
    { entry with
      onboardingCompleted := true, onboardingCompletedAt := some completed
      lastActive := now }

inductive Op where
  | register (entry : AgentEntry)
  | remove (id : AgentId)
  | addChild (parentId childId : AgentId)
  | setState (id : AgentId) (state : AgentState) (now : DateTime)
  | setMode (id : AgentId) (mode : AgentMode) (now : DateTime)
  | updateSessionId (id : AgentId) (newSessionId : SessionId) (now : DateTime)
  | updateWorkspace (id : AgentId) (workspace : Option Str) (now : DateTime)
  | updateIdentity (id : AgentId) (identity : AgentIdentity) (now : DateTime)
  | updateModel (id : AgentId) (newModel : Str) (now : DateTime)
  | updateModelAndProvider (id : AgentId) (newModel newProvider : Str) (now : DateTime)
  | updateSkills (id : AgentId) (skills : List Str) (now : DateTime)
  | updateMcpServers (id : AgentId) (servers : List Str) (now : DateTime)
  | updateSystemPrompt (id : AgentId) (newPrompt : Str) (now : DateTime)
  | updateName (id : AgentId) (newName : Str) (now : DateTime)
  | updateDescription (id : AgentId) (newDesc : Str) (now : DateTime)
  | markOnboardingComplete (id : AgentId) (completed now : DateTime)

def apply : Op → AgentRegistry × Except ClawReformError Unit
  | .register entry => r.register entry
  | .remove id => ((r.remove id).1, (r.remove id).2.map fun _ => ())
  | .addChild parentId childId => (r.addChild parentId childId, .ok ())
  | .setState id state now => r.setState id state now
  | .setMode id mode now => r.setMode id mode now
  | .updateSessionId id newSessionId now => r.updateSessionId id newSessionId now
  | .updateWorkspace id workspace now => r.updateWorkspace id workspace now
  | .updateIdentity id identity now => r.updateIdentity id identity now
  | .updateModel id newModel now => r.updateModel id newModel now
  | .updateModelAndProvider id newModel newProvider now =>
    r.updateModelAndProvider id newModel newProvider now
  | .updateSkills id skills now => r.updateSkills id skills now
  | .updateMcpServers id servers now => r.updateMcpServers id servers now
  | .updateSystemPrompt id newPrompt now => r.updateSystemPrompt id newPrompt now
  | .updateName id newName now => r.updateName id newName now
  | .updateDescription id newDesc now => r.updateDescription id newDesc now
  | .markOnboardingComplete id completed now => r.markOnboardingComplete id completed now

def step (r : AgentRegistry) (op : Op) :
    AgentRegistry × List (Except ClawReformError Unit) :=
  ((r.apply op).1, [(r.apply op).2])

/-- A new agent comes with an id no stored agent has. -/
def FreshId (r : AgentRegistry) : Op → Prop
  | .register entry => entry.id ∉ r.agents
  | _ => True

instance : ∀ r op, Decidable (FreshId r op)
  | r, .register entry => inferInstanceAs (Decidable (entry.id ∉ r.agents))
  | _, .remove _ | _, .addChild _ _ | _, .setState _ _ _ | _, .setMode _ _ _
  | _, .updateSessionId _ _ _ | _, .updateWorkspace _ _ _ | _, .updateIdentity _ _ _
  | _, .updateModel _ _ _ | _, .updateModelAndProvider _ _ _ _ | _, .updateSkills _ _ _
  | _, .updateMcpServers _ _ _ | _, .updateSystemPrompt _ _ _ | _, .updateName _ _ _
  | _, .updateDescription _ _ _ | _, .markOnboardingComplete _ _ _ =>
    inferInstanceAs (Decidable True)

/-- Both indexes tell what the stored entries say, and each entry stands under its id. -/
structure Consistent : Prop where
  named : Named AgentEntry.name r.nameIndex r.agents
  tagged : Indexed AgentEntry.tags r.tagIndex r.agents
  keyed : ∀ id entry, r.agents.lookup id = some entry → entry.id = id

variable {r}

theorem new_consistent : new.Consistent where
  named := named_empty
  tagged := indexed_empty
  keyed := by
    intro id entry h
    simp [new] at h

theorem Consistent.register (h : r.Consistent) {entry : AgentEntry} (hfresh : entry.id ∉ r.agents) :
    (r.register entry).1.Consistent := by
  rw [AgentRegistry.register]
  split
  · exact h
  · rename_i hname
    refine ⟨h.named.insert hfresh hname, h.tagged.insert hfresh entry, ?_⟩
    intro id e he
    rw [lookup_insert] at he
    split at he
    · cases he
      symm
      assumption
    · exact h.keyed id e he

theorem Consistent.remove (h : r.Consistent) (id : AgentId) : (r.remove id).1.Consistent := by
  rw [AgentRegistry.remove]
  split
  · rename_i entry hentry
    refine ⟨h.named.erase hentry, h.tagged.erase hentry, ?_⟩
    intro j e he
    rw [lookup_erase] at he
    split at he
    · cases he
    · exact h.keyed j e he
  · exact h

/-- Changing an entry in place keeps the indexes right, as long as the name,
the tags and the id stay. -/
theorem Consistent.adjust (h : r.Consistent) {id : AgentId} {f : AgentEntry → AgentEntry}
    (hname : ∀ e, (f e).name = e.name) (htags : ∀ e, (f e).tags = e.tags)
    (hid : ∀ e, (f e).id = e.id) :
    Consistent { r with agents := adjust id f r.agents } := by
  refine ⟨h.named.adjust hname, h.tagged.adjust htags, ?_⟩
  intro j e he
  rw [lookup_adjust] at he
  split at he
  · obtain ⟨e', he', rfl⟩ := Option.map_eq_some_iff.mp he
    rw [hid, h.keyed j e' he']
  · exact h.keyed j e he

theorem Consistent.update (h : r.Consistent) (id : AgentId) {f : AgentEntry → AgentEntry}
    (hname : ∀ e, (f e).name = e.name) (htags : ∀ e, (f e).tags = e.tags)
    (hid : ∀ e, (f e).id = e.id) : (r.update id f).1.Consistent := by
  rw [AgentRegistry.update]
  split
  · exact h.adjust hname htags hid
  · exact h

theorem Consistent.updateName (h : r.Consistent) (id : AgentId) (newName : Str) (now : DateTime) :
    (r.updateName id newName now).1.Consistent := by
  rw [AgentRegistry.updateName]
  split
  · exact h
  · rename_i hnew
    split
    · rename_i entry hentry
      refine ⟨h.named.rename (f := rename newName now) hentry hnew, h.tagged.adjust fun _ => rfl, ?_⟩
      intro j e he
      rw [lookup_adjust] at he
      split at he
      · obtain ⟨e', he', rfl⟩ := Option.map_eq_some_iff.mp he
        exact h.keyed j e' he'
      · exact h.keyed j e he
    · exact h

theorem Consistent.apply (h : r.Consistent) {op : Op} (hfresh : r.FreshId op) :
    (r.apply op).1.Consistent := by
  cases op with
  | register entry => exact h.register hfresh
  | remove id => exact h.remove id
  | addChild parentId childId => exact h.adjust (fun _ => rfl) (fun _ => rfl) (fun _ => rfl)
  | updateName id newName now => exact h.updateName id newName now
  | setState id | setMode id | updateSessionId id | updateWorkspace id | updateIdentity id
  | updateModel id | updateModelAndProvider id | updateSkills id | updateMcpServers id
  | updateSystemPrompt id | updateDescription id | markOnboardingComplete id =>
    exact h.update id (fun _ => rfl) (fun _ => rfl) (fun _ => rfl)

theorem register_error (entry : AgentEntry) (err : ClawReformError) :
    (r.register entry).2 = .error err → (r.register entry).1 = r := by
  rw [register]
  split
  · exact fun _ => rfl
  · exact fun h => nomatch h

theorem remove_error (id : AgentId) (err : ClawReformError) :
    (r.remove id).2 = .error err → (r.remove id).1 = r := by
  rw [remove]
  split
  · exact fun h => nomatch h
  · exact fun _ => rfl

theorem update_error (id : AgentId) (f : AgentEntry → AgentEntry) (err : ClawReformError) :
    (r.update id f).2 = .error err → (r.update id f).1 = r := by
  rw [update]
  split
  · exact fun h => nomatch h
  · exact fun _ => rfl

theorem updateName_error (id : AgentId) (newName : Str) (now : DateTime) (err : ClawReformError) :
    (r.updateName id newName now).2 = .error err → (r.updateName id newName now).1 = r := by
  rw [updateName]
  split
  · exact fun _ => rfl
  · split
    · exact fun h => nomatch h
    · exact fun _ => rfl

/-- An operation that fails has changed nothing. -/
theorem apply_error {op : Op} {err : ClawReformError} (h : (r.apply op).2 = .error err) :
    (r.apply op).1 = r := by
  cases op with
  | register entry => exact register_error entry err h
  | remove id =>
    apply remove_error id err
    rw [apply] at h
    cases hr : (r.remove id).2 with
    | ok entry => rw [hr] at h; cases h
    | error e => rw [hr] at h; cases h; rfl
  | addChild parentId childId => cases h
  | updateName id newName now => exact updateName_error id newName now err h
  | setState | setMode | updateSessionId | updateWorkspace | updateIdentity | updateModel
  | updateModelAndProvider | updateSkills | updateMcpServers | updateSystemPrompt
  | updateDescription | markOnboardingComplete => exact update_error _ _ err h

theorem run_keeps_consistent {ops : List Op} (hops : Allowed step FreshId new ops) :
    (run step new ops).1.Consistent :=
  run_invariant_of_allowed step (fun r _ => r.Consistent)
    (fun _ _ _ h hfresh => h.apply hfresh) new_consistent hops

/-- After every run of operations the name index and the tag index agree with
the stored agents, and no failed operation changes a map. -/
theorem run_consistent (ops : List Op) (hops : Allowed step FreshId new ops) :
    let r := (run step new ops).1
    (∀ name id, r.nameIndex.lookup name = some id ↔
      ∃ entry, r.get id = some entry ∧ entry.name = name) ∧
    (∀ id entry, r.get id = some entry → r.findByName entry.name = some entry) ∧
    (∀ id id' entry entry', r.get id = some entry → r.get id' = some entry' →
      entry.name = entry'.name → id = id') ∧
    (∀ tag id, id ∈ listed r.tagIndex tag ↔ ∃ entry, r.get id = some entry ∧ tag ∈ entry.tags) ∧
    ∀ op err, (r.apply op).2 = .error err → (r.apply op).1 = r := by
  intro r
  have h : r.Consistent := run_keeps_consistent hops
  refine ⟨h.named, ?_, fun _ _ _ _ => h.named.injective, h.tagged, fun _ _ => apply_error⟩
  intro id entry hid
  rw [findByName, (h.named entry.name id).mpr ⟨entry, hid, rfl⟩, Option.bind_some]
  exact hid

/-- An agent as it is spawned, with an id, a name and tags of its own. -/
def spawned (id : AgentId) (name : Str) (tags : List Str) : AgentEntry where
  id := id
  name := name
  manifest := ⟨name, [], ⟨"anthropic".toList, "claude".toList, []⟩, [], [], none⟩
  state := .created
  mode := .full
  lastActive := 0
  children := []
  sessionId := id
  tags := tags
  identity := ⟨none, none, none, none, none, none⟩
  onboardingCompleted := false
  onboardingCompletedAt := none

/-- Two agents, a rename, a rename to a name in use, and a removal. -/
def renamed : List Op :=
  [.register (spawned 1 "coder".toList ["dev".toList]),
    .register (spawned 2 "writer".toList ["dev".toList, "docs".toList]),
    .updateName 1 "editor".toList 5, .updateName 2 "editor".toList 6, .remove 1]

theorem run_consistent_renamed :
    Allowed step FreshId new renamed ∧
    (let r := (run step new renamed).1
     (∀ name id, r.nameIndex.lookup name = some id ↔
       ∃ entry, r.get id = some entry ∧ entry.name = name) ∧
     ∀ tag id, id ∈ listed r.tagIndex tag ↔ ∃ entry, r.get id = some entry ∧ tag ∈ entry.tags) :=
  have h := run_consistent renamed (by decide)
  ⟨by decide, h.1, h.2.2.2.1⟩

end AgentRegistry

end Clawreform.Kernel
