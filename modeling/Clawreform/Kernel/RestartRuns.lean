import Clawreform.Kernel.Restarting

namespace Clawreform.Kernel.Restarting

open Clawreform.Lib Clawreform.Lib.Text Clawreform.Lib.Run Clawreform.Lib.Store
open Clawreform.Types Clawreform.Hands Clawreform.Kernel.Lifecycle
open Clawreform.Runtime.Mcp (normalizeName)

section Synchrony

variable {K : KernelConfig} {s s' : KernelState}

def Distinct (K : KernelConfig) (rows : Map AgentId AgentRow) : Prop :=
  ∀ i j v w, rows.lookup i = some v → rows.lookup j = some w →
    K.rendering.toLowercase v.name = K.rendering.toLowercase w.name → i = j

theorem restores_iff (h : Distinct K s.rows) : Restores K s ↔
    ∀ id, (s.rows.lookup id).map (restoredFields K) = persistent (s.registry, s.origins) id := by
  have hrestored {table : AgentTable} (now : DateTime) (hperm : table.Perm s.rows.entries)
      (id : AgentId) : persistent (restore K now table) id =
        (s.rows.lookup id).map (restoredFields K) := by
    have hkeys : table.NodupKeys := (List.perm_nodupKeys hperm).mpr s.rows.nodupKeys
    have hnames : (table.map (K.rendering.toLowercase ·.2.name)).Nodup := by
      refine List.Nodup.map_on ?_ hkeys.nodup
      rintro ⟨i, v⟩ hi ⟨j, w⟩ hj hname
      have hv := mem_entries.mp (hperm.mem_iff.mp hi)
      have hw := mem_entries.mp (hperm.mem_iff.mp hj)
      obtain rfl := h i j v w hv hw hname
      rw [hv, Option.some_inj] at hw
      rw [hw]
    rw [persistent_restore now hkeys, loadAllAgents_eq hnames (by simp),
      List.perm_dlookup id hkeys hperm]
    rfl
  constructor
  · intro hall id
    rw [← hrestored 0 (List.Perm.refl _) id]
    exact hall _ 0 (List.Perm.refl _) id
  · intro hall table now hperm id
    rw [hrestored now hperm, hall]

/-- What comes back is a row of the table. -/
theorem row_of_restores (h : Restores K s) {id : AgentId} {fields : Persistent}
    (hid : persistent (s.registry, s.origins) id = some fields) :
    ∃ row, ⟨id, row⟩ ∈ loadAllAgents K.rendering.toLowercase [] s.rows.entries ∧
      restoredFields K row = fields := by
  have hrestored := h _ 0 (List.Perm.refl _) id
  rw [persistent_restore 0 s.rows.nodupKeys, hid] at hrestored
  obtain ⟨row, hrow, hfields⟩ := Option.map_eq_some_iff.mp hrestored
  exact ⟨row, List.of_mem_dlookup hrow, hfields⟩

theorem eq_of_restores (h : Restores K s) {i j : AgentId} {f g : Persistent}
    (hi : persistent (s.registry, s.origins) i = some f)
    (hj : persistent (s.registry, s.origins) j = some g)
    (hname : K.rendering.toLowercase f.name = K.rendering.toLowercase g.name) : i = j := by
  obtain ⟨v, hv, rfl⟩ := row_of_restores h hi
  obtain ⟨w, hw, rfl⟩ := row_of_restores h hj
  have hnodup := (@loadAllAgents_names K.rendering.toLowercase [] s.rows.entries).1
  exact congrArg Sigma.fst (List.inj_on_of_nodup_map hnodup hv hw hname)

/-- The table restores the agents, and in any order. -/
structure Synced (K : KernelConfig) (s : KernelState) : Prop where
  distinct : Distinct K s.rows
  restores : Restores K s

/-- A condition on what happens decides whether the table restores the agents behind it. -/
structure Decides (K : KernelConfig) (s' : KernelState) (ok : Prop) : Prop where
  synced : ok → Synced K s'
  of_restores : Restores K s' → ok

theorem Synced.lookup (h : Synced K s) (id : AgentId) :
    (s.rows.lookup id).map (restoredFields K) = persistent (s.registry, s.origins) id :=
  (restores_iff h.distinct).mp h.restores id

theorem Decides.of_distinct {ok : Prop} (hdistinct : Distinct K s'.rows)
    (h : (∀ id, (s'.rows.lookup id).map (restoredFields K) =
      persistent (s'.registry, s'.origins) id) ↔ ok) : Decides K s' ok where
  synced hok := ⟨hdistinct, (restores_iff hdistinct).mpr (h.mpr hok)⟩
  of_restores hrestores := h.mp ((restores_iff hdistinct).mp hrestores)

/-- Where no row changes, no agent may change. -/
theorem Synced.decides (h : Synced K s) (s' : KernelState) (hrows : s'.rows = s.rows) :
    Decides K s' (∀ id, persistent (s'.registry, s'.origins) id =
      persistent (s.registry, s.origins) id) := by
  refine .of_distinct (hrows ▸ h.distinct) (forall_congr' fun id => ?_)
  rw [hrows, h.lookup]
  exact eq_comm

theorem Synced.unchanged (h : Synced K s) (hrows : s'.rows = s.rows)
    (hregistry : s'.registry = s.registry) (horigins : s'.origins = s.origins) :
    Decides K s' True := by
  have hdecides := h.decides s' hrows
  rw [hregistry, horigins] at hdecides
  exact ⟨fun _ => hdecides.synced fun _ => rfl, fun _ => trivial⟩

theorem persistent_eq_iff {r r' : AgentRegistry} (origins : Map AgentId Origin) (id : AgentId) :
    persistent (r', origins) id = persistent (r, origins) id ↔
      (r'.agents.lookup id).map (fieldsOf · none) = (r.agents.lookup id).map (fieldsOf · none) := by
  unfold persistent
  cases r'.agents.lookup id <;> cases r.agents.lookup id <;> simp [fieldsOf]

theorem Synced.setter (h : Synced K s) (s' : KernelState) (hrows : s'.rows = s.rows)
    (horigins : s'.origins = s.origins) {op : AgentRegistry.Op}
    (hregistry : s'.registry = (s.registry.apply op).1) : Decides K s' (Keeps s.registry op) := by
  have hdecides := h.decides s' hrows
  have hiff : (∀ id, persistent (s'.registry, s'.origins) id =
      persistent (s.registry, s.origins) id) ↔ Keeps s.registry op := by
    rw [horigins, hregistry]
    exact forall_congr' fun id => persistent_eq_iff s.origins id
  exact ⟨fun hkeeps => hdecides.synced (hiff.mpr hkeeps),
    fun hrestores => hiff.mp (hdecides.of_restores hrestores)⟩

end Synchrony

section Changes

variable {K : KernelConfig} {s s' : KernelState} {id : AgentId}

/-- What saving an agent relies on. -/
structure SameAgent (entry entry' : AgentEntry) : Prop where
  name : entry'.name = entry.name
  children : entry'.children = entry.children
  tags : entry'.tags = entry.tags
  identity : entry'.identity = entry.identity

theorem lookup_update (r : AgentRegistry) (id : AgentId) (f : AgentEntry → AgentEntry)
    (j : AgentId) : (r.update id f).1.agents.lookup j =
      if j = id then (r.agents.lookup j).map f else r.agents.lookup j := by
  unfold AgentRegistry.update
  cases hid : r.agents.lookup id with
  | none =>
    by_cases hj : j = id
    · rw [if_pos hj, hj, hid]
      rfl
    · rw [if_neg hj]
  | some entry => exact lookup_adjust j id f r.agents

/-- A row that is saved says what the entry says. -/
theorem restoredFields_rowOf {row : AgentRow} {entry entry' : AgentEntry} {origin : Origin}
    (h : restoredFields K row = fieldsOf entry (some origin)) (hsame : SameAgent entry entry') :
    restoredFields K (rowOf entry' origin) = fieldsOf entry' (some origin) := by
  simp only [restoredFields, fieldsOf, restoredEntry, restoredOrigin, Persistent.mk.injEq,
    Option.map_some, Option.bind_some, Option.some_inj] at h ⊢
  obtain ⟨-, -, hdeclared, -, hparent, hchildren, htags, hidentity⟩ := h
  refine ⟨rfl, rfl, ?_, rfl, hparent, hchildren.trans hsame.children.symm,
    htags.trans hsame.tags.symm, hidentity.trans hsame.identity.symm⟩
  have hpolicy : origin.toDeclared.execPolicy =
      (origin.toDeclared.execPolicy).or (some K.execPolicy) := by
    rw [← hdeclared]
    simp [inheritPolicy]
  rw [inheritPolicy]
  dsimp only [rowOf]
  rw [← hpolicy]

theorem distinct_insert {rows : Map AgentId AgentRow} (h : Distinct K rows) {row : AgentRow}
    (hname : ∀ j v, rows.lookup j = some v → j ≠ id →
      K.rendering.toLowercase v.name ≠ K.rendering.toLowercase row.name) :
    Distinct K (rows.insert id row) := by
  intro i j v w hi hj hnames
  rw [lookup_insert] at hi hj
  by_cases hiid : i = id
  · by_cases hjid : j = id
    · rw [hiid, hjid]
    · rw [if_pos hiid] at hi
      rw [if_neg hjid] at hj
      cases hi
      exact absurd hnames.symm (hname j w hj hjid)
  · rw [if_neg hiid] at hi
    by_cases hjid : j = id
    · rw [if_pos hjid] at hj
      cases hj
      exact absurd hnames (hname i v hi hiid)
    · rw [if_neg hjid] at hj
      exact h i j v w hi hj hnames

theorem distinct_erase {rows : Map AgentId AgentRow} (h : Distinct K rows) (id : AgentId) :
    Distinct K (rows.erase id) := by
  intro i j v w hi hj hnames
  rw [lookup_erase] at hi hj
  split at hi
  · cases hi
  · split at hj
    · cases hj
    · exact h i j v w hi hj hnames

/-- Saving an agent whose entry has changed brings the table up to date. -/
theorem Synced.saved (h : Synced K s) (hrows : s'.rows = s.rows) (horigins : s'.origins = s.origins)
    {f : AgentEntry → AgentEntry} (hf : ∀ entry, SameAgent entry (f entry))
    (hlookup : ∀ j, s'.registry.agents.lookup j =
      if j = id then (s.registry.agents.lookup j).map f else s.registry.agents.lookup j) :
    Synced K (saveAgent s' id true) := by
  have hid := h.lookup id
  unfold persistent at hid
  cases hentry : s.registry.agents.lookup id with
  | none =>
    have hnone : s'.registry.get id = none := by
      rw [AgentRegistry.get, hlookup, if_pos rfl, hentry]
      rfl
    have hsame : saveAgent s' id true = s' := by rw [saveAgent, hnone]
    rw [hsame]
    refine (h.decides s' hrows).synced fun j => ?_
    simp only [persistent, hlookup, horigins]
    split
    · rename_i hj
      rw [hj, hentry]
      rfl
    · rfl
  | some entry =>
    rw [hentry, Option.map_some] at hid
    obtain ⟨row, hrow, hfields⟩ := Option.map_eq_some_iff.mp hid
    have horigin : ∃ origin, s.origins.lookup id = some origin := by
      cases horigin : s.origins.lookup id with
      | none =>
        rw [horigin] at hfields
        exact absurd (congrArg Persistent.declared hfields) (by simp [restoredFields, fieldsOf])
      | some origin => exact ⟨origin, rfl⟩
    obtain ⟨origin, horigin⟩ := horigin
    rw [horigin] at hfields
    have hsome : s'.registry.get id = some (f entry) := by
      rw [AgentRegistry.get, hlookup, if_pos rfl, hentry]
      rfl
    have hsave : saveAgent s' id true =
        { s' with rows := s'.rows.insert id (rowOf (f entry) origin) } := by
      rw [saveAgent, hsome, horigins, horigin]
      rfl
    have hrestored := restoredFields_rowOf hfields (hf entry)
    rw [hsave]
    refine (Decides.of_distinct ?_ (iff_true_intro fun j => ?_)).synced trivial
    · dsimp only
      rw [hrows]
      refine distinct_insert h.distinct fun j v hv hne hnames => hne ?_
      refine h.distinct j id v row hv hrow (hnames.trans (congrArg _ ?_))
      have hname : row.name = entry.name := congrArg Persistent.name hfields
      exact (hf entry).name.trans hname.symm
    · dsimp only
      rw [lookup_insert]
      simp only [persistent, hlookup, horigins]
      by_cases hj : j = id
      · subst hj
        rw [if_pos rfl, if_pos rfl, hentry, horigin]
        exact congrArg some hrestored
      · rw [if_neg hj, if_neg hj, hrows]
        exact h.lookup j

theorem saveAgent_unsaved (s : KernelState) (id : AgentId) : saveAgent s id false = s := by
  unfold saveAgent
  split <;> rfl

/-- A change of one entry outlasts a restart when the row is saved, or it changes nothing that
does. -/
theorem Synced.persisted (h : Synced K s) (op : AgentRegistry.Op) {f : AgentEntry → AgentEntry}
    (hop : s.registry.apply op = s.registry.update id f)
    (hf : ∀ entry, SameAgent entry (f entry)) (saved : Bool) :
    Decides K (persist s (s.registry.update id f) id saved).1
      (saved = true ∨ Keeps s.registry op) := by
  cases hentry : s.registry.agents.lookup id with
  | none =>
    have hupdate : s.registry.update id f = (s.registry, .error (.agentNotFound id.toStr)) := by
      rw [AgentRegistry.update, hentry]
    have hkeeps : Keeps s.registry op := by
      intro j
      rw [hop, hupdate]
    rw [hupdate]
    exact ⟨fun _ => h, fun _ => .inr hkeeps⟩
  | some entry =>
    have hupdate : s.registry.update id f =
        ((s.registry.update id f).1, .ok ()) := by
      rw [AgentRegistry.update, hentry]
    rw [hupdate]
    cases saved with
    | true =>
      refine ⟨fun _ => ?_, fun _ => .inl rfl⟩
      exact h.saved rfl rfl hf (lookup_update s.registry id f)
    | false =>
      rw [persist]
      dsimp only
      rw [saveAgent_unsaved]
      have hsetter := h.setter { s with registry := (s.registry.update id f).1 } rfl rfl
        (congrArg Prod.fst hop.symm)
      exact ⟨fun hok => hsetter.synced (hok.resolve_left (by simp)),
        fun hrestores => .inr (hsetter.of_restores hrestores)⟩

theorem Synced.suspend (h : Synced K s) (now : DateTime) (saved : AgentId → Bool) (id : AgentId) :
    Synced K (suspend now saved s id) := by
  have hsame (entry : AgentEntry) :
      SameAgent entry { entry with state := .suspended, lastActive := now } := ⟨rfl, rfl, rfl, rfl⟩
  unfold Restarting.suspend
  cases saved id with
  | true => exact h.saved rfl rfl hsame (lookup_update s.registry id _)
  | false =>
    rw [saveAgent_unsaved]
    have hsetter := @Synced.setter K s h
      { s with registry := (s.registry.setState id .suspended now).1 } rfl rfl
      (.setState id .suspended now) rfl
    refine hsetter.synced fun j => ?_
    change ((s.registry.update id _).1.agents.lookup j).map _ = _
    rw [lookup_update]
    split
    · rw [Option.map_map]
      rfl
    · rfl

theorem Synced.shutdown (h : Synced K s) (now : DateTime) (saved : AgentId → Bool) :
    Synced K (shutdown s now saved) := by
  unfold Restarting.shutdown
  generalize s.registry.agents.keys = ids
  induction ids generalizing s with
  | nil => exact h
  | cons id ids ih => exact ih (h.suspend now saved id)

end Changes

section Spawning

variable {K : KernelConfig} {s s' : KernelState} {manifest : SpawnManifest}
variable {parent : Option AgentId} {draw : Draw}

def originOf (K : KernelConfig) (manifest : SpawnManifest) (parent : Option AgentId)
    (draw : Draw) : Origin :=
  { (prepared K manifest draw.agentId).toDeclared with parent := parent, createdAt := draw.now }

/-- A spawn that goes through leaves an entry, and a row that says the same. -/
theorem spawn_ok (h : (spawnAgentWithParent K s manifest parent draw).2.isOk) :
    let entry := entryOf (prepared K manifest draw.agentId) draw
    let s' := (spawnAgentWithParent K s manifest parent draw).1
    (∃ r : AgentRegistry, r.agents = s.registry.agents.insert draw.agentId entry ∧
      s'.registry = addChild r parent draw.agentId) ∧
    s'.origins = s.origins.insert draw.agentId (originOf K manifest parent draw) ∧
    s'.rows = s.rows.insert draw.agentId (rowOf entry (originOf K manifest parent draw)) := by
  unfold spawnAgentWithParent at h ⊢
  cases hsession : draw.sessionError with
  | some e =>
    rw [hsession] at h
    cases h
  | none =>
    cases hworkspace : draw.workspaceError with
    | some e =>
      simp only [hsession, hworkspace] at h
      cases h
    | none =>
      by_cases hname : (entryOf (prepared K manifest draw.agentId) draw).name ∈ s.registry.nameIndex
      · simp only [hsession, hworkspace, AgentRegistry.register, if_pos hname] at h
        cases h
      · cases hsave : draw.saveError with
        | some e =>
          simp only [hsession, hworkspace, AgentRegistry.register, if_neg hname, hsave] at h
          cases h
        | none =>
          simp only [AgentRegistry.register, if_neg hname]
          exact ⟨⟨_, rfl, rfl⟩, rfl, rfl⟩

theorem persistent_addChild (r : AgentRegistry) (origins : Map AgentId Origin)
    (parent : Option AgentId) (child id : AgentId) :
    ∃ children, persistent (addChild r parent child, origins) id =
      (persistent (r, origins) id).map fun fields =>
        { fields with children := fields.children ++ children } := by
  cases parent with
  | none => exact ⟨[], by simp [addChild]⟩
  | some parent =>
    by_cases hid : id = parent
    · refine ⟨[child], ?_⟩
      subst hid
      simp only [addChild, persistent, AgentRegistry.addChild, lookup_adjust_self, Option.map_map]
      rfl
    · refine ⟨[], ?_⟩
      simp only [addChild, persistent, AgentRegistry.addChild, lookup_adjust_ne hid,
        List.append_nil, Option.map_id']

theorem prepared_tags (manifest : SpawnManifest) (agentId : AgentId) :
    (prepared K manifest agentId).tags = manifest.tags := by
  unfold prepared overlayModel inheritPolicy
  split <;> rfl

theorem prepared_execPolicy (manifest : SpawnManifest) (agentId : AgentId) :
    (prepared K manifest agentId).execPolicy = manifest.execPolicy.or (some K.execPolicy) := by
  unfold prepared overlayModel inheritPolicy
  split <;> rfl

theorem restoredFields_spawned (htags : manifest.tags = []) :
    let entry := entryOf (prepared K manifest draw.agentId) draw
    restoredFields K (rowOf entry (originOf K manifest none draw)) =
      fieldsOf entry (some (originOf K manifest none draw)) := by
  have hpolicy : (prepared K manifest draw.agentId).execPolicy =
      (prepared K manifest draw.agentId).execPolicy.or (some K.execPolicy) := by
    rw [prepared_execPolicy]
    cases manifest.execPolicy <;> rfl
  simp only [restoredFields, fieldsOf, restoredEntry, restoredOrigin, Persistent.mk.injEq,
    Option.map_some, Option.bind_some, Option.some_inj]
  refine ⟨rfl, rfl, ?_, rfl, rfl, rfl, ?_, rfl⟩
  · rw [inheritPolicy]
    dsimp only [rowOf, originOf]
    rw [← hpolicy]
  · exact (htags.symm.trans (prepared_tags manifest draw.agentId).symm)

/-- Behind a spawn the new agent is there, and the others are what they were, up to a child. -/
theorem persistent_spawn (h : (spawnAgentWithParent K s manifest parent draw).2.isOk)
    (id : AgentId) :
    let entry := entryOf (prepared K manifest draw.agentId) draw
    let s' := (spawnAgentWithParent K s manifest parent draw).1
    ∃ children, persistent (s'.registry, s'.origins) id =
      (if id = draw.agentId then some (fieldsOf entry (some (originOf K manifest parent draw)))
        else persistent (s.registry, s.origins) id).map fun fields =>
          { fields with children := fields.children ++ children } := by
  intro entry s'
  obtain ⟨⟨r, hagents, hregistry⟩, horigins, -⟩ := spawn_ok h
  obtain ⟨children, hchildren⟩ :=
    persistent_addChild r s'.origins parent draw.agentId id
  refine ⟨children, ?_⟩
  rw [hregistry, hchildren, horigins]
  congr 1
  simp only [persistent, hagents, lookup_insert]
  split <;> rfl

theorem plain_of_restores (hok : (spawnAgentWithParent K s manifest parent draw).2.isOk)
    (hrestores : Restores K (spawnAgentWithParent K s manifest parent draw).1) :
    parent = none ∧ manifest.tags = [] := by
  obtain ⟨children, hnew⟩ := persistent_spawn hok draw.agentId
  rw [if_pos rfl, Option.map_some] at hnew
  obtain ⟨row, -, hrow⟩ := row_of_restores hrestores hnew
  exact ⟨(congrArg Persistent.parent hrow).symm,
    (prepared_tags manifest draw.agentId).symm.trans (congrArg Persistent.tags hrow).symm⟩

theorem Synced.spawn (h : Synced K s)
    (hok : (spawnAgentWithParent K s manifest parent draw).2.isOk) :
    Decides K (spawnAgentWithParent K s manifest parent draw).1
      (Persists K s (.kernel (.spawn manifest parent draw))) := by
  have hname : (prepared K manifest draw.agentId).name = manifest.name := prepared_name _ _
  constructor
  · rintro ⟨rfl, htags, hnames⟩
    obtain ⟨⟨r, hagents, hregistry⟩, horigins, hrows⟩ := spawn_ok hok
    refine (Decides.of_distinct ?_ (iff_true_intro fun id => ?_)).synced trivial
    · rw [hrows]
      refine distinct_insert h.distinct fun j v hv hne => ?_
      have hj := h.lookup j
      rw [hv, Option.map_some] at hj
      obtain ⟨entry, hentry, hfields⟩ := Option.map_eq_some_iff.mp hj.symm
      have hsame : entry.name = v.name := congrArg Persistent.name hfields
      rw [← hsame]
      change _ ≠ K.rendering.toLowercase (prepared K manifest draw.agentId).name
      rw [hname]
      exact hnames j entry hentry hne
    · rw [hrows, hregistry, horigins, addChild]
      simp only [persistent, hagents, lookup_insert]
      by_cases hid : id = draw.agentId
      · rw [if_pos hid, if_pos hid, if_pos hid]
        exact congrArg some (restoredFields_spawned htags)
      · rw [if_neg hid, if_neg hid, if_neg hid]
        exact h.lookup id
  · intro hrestores
    obtain ⟨hparent, htags⟩ := plain_of_restores hok hrestores
    refine ⟨hparent, htags, fun id entry hentry hne hnames => hne ?_⟩
    obtain ⟨children, hnew⟩ := persistent_spawn hok draw.agentId
    obtain ⟨others, hother⟩ := persistent_spawn hok id
    have hold : persistent (s.registry, s.origins) id =
        some (fieldsOf entry (s.origins.lookup id)) := by
      have hlookup : s.registry.agents.lookup id = some entry := hentry
      rw [persistent, hlookup]
      rfl
    rw [if_pos rfl, Option.map_some] at hnew
    rw [if_neg hne, hold, Option.map_some] at hother
    refine eq_of_restores hrestores hother hnew ?_
    exact hnames.trans (congrArg _ hname.symm)

end Spawning

section Killing

variable {K : KernelConfig} {s s' : KernelState} {id : AgentId} {removal : Removal}

theorem restores_congr (hrows : s'.rows = s.rows) (hregistry : s'.registry = s.registry)
    (horigins : s'.origins = s.origins) : Restores K s' ↔ Restores K s := by
  unfold Restores
  rw [hrows, hregistry, horigins]

theorem Synced.congr (h : Synced K s) (hrows : s'.rows = s.rows)
    (hregistry : s'.registry = s.registry) (horigins : s'.origins = s.origins) : Synced K s' :=
  (h.unchanged hrows hregistry horigins).synced trivial

/-- A killed agent stays away when its row is gone. -/
theorem Synced.kill (h : Synced K s) (id : AgentId) (removal : Removal) :
    Decides K (killAgent s id removal).1
      (id ∈ s.registry.agents → removal.keepsRow = false) := by
  cases hentry : s.registry.agents.lookup id with
  | none =>
    have hmem : id ∉ s.registry.agents := AList.lookup_eq_none.mp hentry
    rw [killAgent_of_unregistered hmem]
    exact ⟨fun _ => h, fun _ hregistered => absurd hregistered hmem⟩
  | some entry =>
    have hmem : id ∈ s.registry.agents := by
      rw [← AList.lookup_isSome, hentry]
      rfl
    rw [killAgent_of_registered hentry]
    cases hkeeps : removal.keepsRow with
    | true =>
      refine .of_distinct h.distinct (iff_of_false (fun hall => ?_) (by simp [hmem]))
      have hid := hall id
      simp only [if_true] at hid
      rw [h.lookup id] at hid
      simp [persistent, hentry] at hid
    | false =>
      refine .of_distinct (distinct_erase h.distinct id) (iff_of_true (fun j => ?_) (by simp))
      simp only [Bool.false_eq_true, if_false, persistent, lookup_erase]
      split
      · rfl
      · exact h.lookup j

theorem Synced.deactivateHand (h : Synced K s) {instanceId : Uuid}
    (hok : (deactivateHand s instanceId removal).2.isOk) :
    Decides K (deactivateHand s instanceId removal).1
      ((killedWith s instanceId).isSome → removal.keepsRow = false) := by
  cases hinstance : s.hands.instances.lookup instanceId with
  | none =>
    rw [Lifecycle.deactivateHand, HandRegistry.deactivate, hinstance] at hok
    cases hok
  | some removed =>
    have hkilled : killedWith s instanceId =
        removed.agentId.filter (· ∈ s.registry.agents) := by
      rw [killedWith, HandRegistry.getInstance, hinstance]
      rfl
    rw [hkilled, Lifecycle.deactivateHand, HandRegistry.deactivate, hinstance]
    have hsynced : Synced K { s with hands :=
      { s.hands with instances := s.hands.instances.erase instanceId } } := h.congr rfl rfl rfl
    cases hagent : removed.agentId with
    | none =>
      dsimp only
      rw [hagent]
      exact ⟨fun _ => hsynced, fun _ => by simp⟩
    | some agentId =>
      have hdecides := hsynced.kill agentId removal
      have hiff : ((Option.filter (· ∈ s.registry.agents) (some agentId)).isSome →
          removal.keepsRow = false) ↔
            (agentId ∈ s.registry.agents → removal.keepsRow = false) := by
        by_cases hmem : agentId ∈ s.registry.agents <;> simp [Option.filter, hmem]
      dsimp only
      rw [hagent]
      exact ⟨fun hkept => hdecides.synced (hiff.mp hkept),
        fun hrestores => hiff.mpr (hdecides.of_restores hrestores)⟩

theorem handManifest_tags (hand : HandDefinition) (created : HandInstance) :
    (handManifest K hand created).tags ≠ [] :=
  List.cons_ne_nil _ _

/-- The tags of its agent name a hand, and are lost. -/
theorem not_restores_activateHand {handId : Str} {config : HandConfig} {instanceId : Uuid}
    {draw : Draw} (hok : (activateHand K s handId config instanceId draw).2.isOk) :
    ¬ Restores K (activateHand K s handId config instanceId draw).1 := by
  intro hrestores
  unfold activateHand at hok hrestores
  cases hhand : s.hands.getDefinition handId with
  | none =>
    rw [hhand] at hok
    cases hok
  | some hand =>
    simp only [hhand] at hok hrestores
    cases hactivate : s.hands.activate handId config instanceId draw.now with
    | mk hands result =>
      cases result with
      | error e =>
        simp only [hactivate] at hok
        cases hok
      | ok created =>
        simp only [hactivate] at hok hrestores
        generalize hspawned : spawnAgentWithParent K { s with hands := hands }
          (handManifest K hand created) none draw = spawned at hok hrestores
        obtain ⟨s', answer⟩ := spawned
        cases answer with
        | error e => cases hok
        | ok agentId =>
          have hplain : Restores K s' → False := by
            intro hback
            have hspawn : (spawnAgentWithParent K { s with hands := hands }
                (handManifest K hand created) none draw).2.isOk := by
              rw [hspawned]
              rfl
            have hfst : (spawnAgentWithParent K { s with hands := hands }
                (handManifest K hand created) none draw).1 = s' := congrArg Prod.fst hspawned
            rw [← hfst] at hback
            exact handManifest_tags hand created (plain_of_restores hspawn hback).2
          rw [linkAgent] at hok hrestores
          cases hset : s'.hands.setAgent created.instanceId agentId draw.now with
          | mk hands' result =>
            cases result with
            | error e =>
              simp only [hset] at hok
              cases hok
            | ok _ =>
              simp only [hset] at hrestores
              exact hplain ((restores_congr rfl rfl rfl).mp hrestores)

end Killing

section Runs

variable {K : KernelConfig} {s : KernelState}

theorem keeps_session_iff (r : AgentRegistry) (id : AgentId) (new : SessionId) (now : DateTime) :
    Keeps r (.updateSessionId id new now) ↔
      ∀ entry, r.get id = some entry → entry.sessionId = new := by
  have hlookup (j : AgentId) := lookup_update r id
    (fun entry => { entry with sessionId := new, lastActive := now }) j
  constructor
  · intro h entry hentry
    have hid := h id
    change ((r.update id _).1.agents.lookup id).map _ = _ at hid
    have hagents : r.agents.lookup id = some entry := hentry
    rw [hlookup, if_pos rfl, hagents] at hid
    exact (congrArg Persistent.sessionId (Option.some_inj.mp hid)).symm
  · intro h j
    change ((r.update id _).1.agents.lookup j).map _ = _
    rw [hlookup]
    split
    · rename_i hj
      subst hj
      cases hentry : r.agents.lookup j with
      | none => rfl
      | some entry =>
        have hsession := h entry hentry
        simp [fieldsOf, hsession]
    · rfl

theorem Synced.session (h : Synced K s) (s' : KernelState) {id : AgentId} {new : SessionId}
    (now : DateTime) (hrows : s'.rows = s.rows) (horigins : s'.origins = s.origins)
    (hregistry : s'.registry = (s.registry.updateSessionId id new now).1) :
    Decides K s' (InSession s id new) := by
  have hsetter := @Synced.setter K s h s' hrows horigins (.updateSessionId id new now) hregistry
  have hiff := keeps_session_iff s.registry id new now
  exact ⟨fun hin => hsetter.synced (hiff.mpr hin),
    fun hrestores => hiff.mp (hsetter.of_restores hrestores)⟩

theorem Synced.kernelOp (h : Synced K s) (op : KernelOp) (hok : succeedsAtOnce K s op = true) :
    Decides K (s.apply K op) (Persists K s (.kernel op)) := by
  cases op with
  | spawn manifest parent draw => exact h.spawn hok
  | activateHand handId config instanceId draw =>
    exact ⟨False.elim, not_restores_activateHand hok⟩
  | registerTrigger agentId pattern promptTemplate maxFires id now =>
    rw [KernelState.apply]
    split <;> exact h.unchanged rfl rfl rfl
  | evaluateTriggers event =>
    rw [KernelState.apply]
    split <;> exact h.unchanged rfl rfl rfl
  | startBackground agentId triggerIds now =>
    rw [KernelState.apply]
    split <;> exact h.unchanged rfl rfl rfl
  | setEntry op =>
    rw [KernelState.apply]
    by_cases hop : isSetter op = true
    · rw [if_pos hop]
      have hsetter := @Synced.setter K s h { s with registry := (s.registry.apply op).1 } rfl rfl
        op rfl
      exact ⟨fun hkeeps => hsetter.synced (hkeeps hop),
        fun hrestores _ => hsetter.of_restores hrestores⟩
    · rw [if_neg hop]
      exact ⟨fun _ => h, fun _ hsetter => absurd hsetter hop⟩
  | resetSession id new fails now =>
    obtain ⟨hregistered, hfails⟩ := Bool.and_eq_true_iff.mp hok
    obtain ⟨entry, hentry⟩ := Option.isSome_iff_exists.mp hregistered
    have hstate : s.apply K (.resetSession id new fails now) =
        { s with
          sessions := (s.sessions.deleteSession entry.sessionId).createSession id new
          registry := (s.registry.updateSessionId id new now).1 } := by
      rw [KernelState.apply, resetSession, hentry]
      dsimp only
      rw [if_neg (by simpa using hfails)]
    rw [hstate]
    exact h.session _ now rfl rfl rfl
  | createAgentSession id label new now =>
    obtain ⟨entry, hentry⟩ := Option.isSome_iff_exists.mp hok
    have hstate : s.apply K (.createAgentSession id label new now) =
        { s with
          sessions := s.sessions.createSessionWithLabel id label new
          registry := (s.registry.updateSessionId id new now).1 } := by
      rw [KernelState.apply, createAgentSession, hentry]
    rw [hstate]
    exact h.session _ now rfl rfl rfl
  | switchAgentSession id sessionId now =>
    obtain ⟨hregistered, hany⟩ := Bool.and_eq_true_iff.mp hok
    obtain ⟨entry, hentry⟩ := Option.isSome_iff_exists.mp hregistered
    obtain ⟨session, hsession, howner⟩ := (Option.any_eq_true _ _).mp hany
    have hstate : s.apply K (.switchAgentSession id sessionId now) =
        { s with registry := (s.registry.updateSessionId id sessionId now).1 } := by
      rw [KernelState.apply, switchAgentSession, hentry, hsession]
      dsimp only
      rw [if_pos (of_decide_eq_true howner)]
    rw [hstate]
    exact h.session _ now rfl rfl rfl
  | pauseHand instanceId now => exact h.unchanged rfl rfl rfl
  | resumeHand instanceId now => exact h.unchanged rfl rfl rfl
  | setHandError instanceId message now => exact h.unchanged rfl rfl rfl
  | removeTrigger id => exact h.unchanged rfl rfl rfl
  | setTriggerEnabled id enabled => exact h.unchanged rfl rfl rfl
  | deleteSession sessionId => exact h.unchanged rfl rfl rfl
  | setSessionLabel sessionId label => exact h.unchanged rfl rfl rfl

theorem Synced.next (h : Synced K s) (op : Op) (hok : succeeds K s op = true) :
    Decides K (next K s op) (Persists K s op) := by
  cases op with
  | kernel op => exact h.kernelOp op hok
  | kill id removal =>
    have hdecides := h.kill id removal
    have hregistered : id ∈ s.registry.agents := by
      by_contra hmem
      rw [succeeds, killAgent_of_unregistered hmem] at hok
      cases hok
    exact ⟨fun hrow => hdecides.synced fun _ => hrow,
      fun hrestores => hdecides.of_restores hrestores hregistered⟩
  | deactivateHand instanceId removal => exact h.deactivateHand hok
  | setAgentModel id model provider saved now =>
    have hsame (f : AgentManifest → AgentManifest) (entry : AgentEntry) : SameAgent entry
        { entry with manifest := f entry.manifest, lastActive := now } := ⟨rfl, rfl, rfl, rfl⟩
    cases provider with
    | none =>
      exact h.persisted (.updateModel id model now) rfl
        (hsame fun manifest => { manifest with model.model := model }) saved
    | some provider =>
      exact h.persisted (.updateModelAndProvider id model provider now) rfl
        (hsame fun manifest =>
          { manifest with model.model := model, model.provider := provider }) saved
  | setAgentSkills id skills known saved now =>
    have hknown : skills.find? (· ∉ known) = none := by
      cases hfind : skills.find? (· ∉ known) with
      | none => rfl
      | some name =>
        rw [succeeds, setAgentSkills, hfind] at hok
        cases hok
    rw [Restarting.next, setAgentSkills, hknown]
    exact h.persisted (.updateSkills id skills now) rfl
      (fun _ => ⟨rfl, rfl, rfl, rfl⟩) saved
  | setAgentMcpServers id servers known saved now =>
    have hknown :
        servers.find? (normalizeName K.rendering.toLowercase · ∉ known) = none := by
      cases hfind : servers.find? (normalizeName K.rendering.toLowercase · ∉ known) with
      | none => rfl
      | some name =>
        rw [succeeds, setAgentMcpServers, hfind] at hok
        cases hok
    rw [Restarting.next, setAgentMcpServers, hknown]
    exact h.persisted (.updateMcpServers id servers now) rfl
      (fun _ => ⟨rfl, rfl, rfl, rfl⟩) saved
  | shutdown now saved => exact ⟨fun _ => h.shutdown now saved, fun _ => trivial⟩
  | restart table now rest =>
    rw [Restarting.next]
    split
    · rename_i hperm
      have hdecides := h.decides { rest with
        registry := (restore K now table).1, origins := (restore K now table).2
        rows := s.rows } rfl
      exact ⟨fun _ => hdecides.synced (h.restores table now hperm), fun _ => trivial⟩
    · exact ⟨fun _ => h, fun _ => trivial⟩

/-- No agent is registered, and none is stored. -/
structure Fresh (s : KernelState) : Prop where
  registry : s.registry = .new
  origins : s.origins = ∅
  rows : s.rows = ∅

theorem Fresh.synced (h : Fresh s) : Synced K s := by
  refine (Decides.of_distinct ?_ (iff_true_intro fun id => ?_)).synced trivial
  · rw [h.rows]
    intro i j v w hi
    cases hi
  · rw [h.rows, h.registry]
    rfl

theorem Synced.run_iff (h : Synced K s) {ops : List Op}
    (hok : ∀ b ∈ (run (step K) s ops).2, b = true) :
    (∀ front, front <+: ops → Restores K (run (step K) s front).1) ↔
      Allowed (step K) (Persists K) s ops := by
  induction ops generalizing s with
  | nil => simpa [Allowed] using h.restores
  | cons op ops ih =>
    rw [run_cons] at hok
    obtain ⟨hop, hops⟩ := List.forall_mem_append.mp hok
    have hdecides := h.next op (hop _ List.mem_cons_self)
    constructor
    · intro hall
      have hpersists := hdecides.of_restores (hall [op] ⟨ops, rfl⟩)
      refine ⟨hpersists, (ih (hdecides.synced hpersists) hops).mp fun front hfront => ?_⟩
      exact hall (op :: front) ((List.prefix_cons_inj op).mpr hfront)
    · rintro ⟨hpersists, hrest⟩ front hfront
      cases front with
      | nil => exact h.restores
      | cons op' front =>
        obtain ⟨rfl, htail⟩ := List.cons_prefix_cons.mp hfront
        exact (ih (hdecides.synced hpersists) hops).mpr hrest front htail

/-- In a run of operations that all succeed a restart brings the agents back at every point if
and only if every operation has what it changes in the table. -/
theorem run_restores_iff (hfresh : Fresh s) {ops : List Op}
    (hok : ∀ b ∈ (run (step K) s ops).2, b = true) :
    (∀ front, front <+: ops → Restores K (run (step K) s front).1) ↔
      Allowed (step K) (Persists K) s ops :=
  hfresh.synced.run_iff hok

end Runs

section Examples

/-- An agent is spawned, gets another model, and the kernel shuts down. -/
def newModel : List Op :=
  [.kernel (.spawn (.named "coder".toList) none (smooth 10)),
    .setAgentModel 10 "large".toList none true 11, .shutdown 12 fun _ => true]

theorem run_restores_iff_newModel :
    (∀ front, front <+: newModel →
      Restores plainKernel (run (step plainKernel) (.fresh ∅) front).1) ↔
      Allowed (step plainKernel) (Persists plainKernel) (.fresh ∅) newModel :=
  run_restores_iff ⟨rfl, rfl, rfl⟩ (by decide +kernel)

/-- An agent is spawned and switched to a new session. -/
def newSession : List Op :=
  [.kernel (.spawn (.named "coder".toList) none (smooth 10)),
    .kernel (.createAgentSession 10 none 7 11)]

/-- The session is not in the row of the agent. -/
theorem newSession_lost :
    (∀ b ∈ (run (step plainKernel) (.fresh ∅) newSession).2, b = true) ∧
      ¬ Restores plainKernel (run (step plainKernel) (.fresh ∅) newSession).1 := by
  refine ⟨by decide +kernel, fun h => ?_⟩
  have hid := h _ 0 (List.Perm.refl _) 10
  have hrestored : (persistent (restore plainKernel 0
      (run (step plainKernel) (.fresh ∅) newSession).1.rows.entries) 10).map (·.sessionId) =
        some 10 := by decide +kernel
  rw [hid] at hrestored
  exact absurd hrestored (by decide +kernel)

end Examples

end Clawreform.Kernel.Restarting
