import Clawreform.Types.Config
import Clawreform.Lib.SerdeJson

namespace Clawreform.Kernel.ConfigReload

open Clawreform.Lib.Text Clawreform.Lib.JsonReading Clawreform.Lib.Serde Clawreform.Lib.SerdeJson
  Clawreform.Types.Config

inductive HotAction where
  | reloadChannels
  | reloadSkills
  | updateUsageFooter
  | reloadWebConfig
  | reloadBrowserConfig
  | updateApprovalPolicy
  | updateCronConfig
  | updateWebhookConfig
  | reloadExtensions
  | reloadMcpServers
  | reloadA2aConfig
  | reloadFallbackProviders
  | reloadProviderUrls
  deriving DecidableEq

structure ReloadPlan where
  restartRequired : Bool
  restartReasons : List Str
  hotActions : List HotAction
  noopChanges : List Str
  deriving DecidableEq

section Plan

def ReloadPlan.hasChanges (plan : ReloadPlan) : Bool :=
  plan.restartRequired || plan.hotActions ≠ [] || plan.noopChanges ≠ []

def ReloadPlan.restartIf (plan : ReloadPlan) (changed : Bool) (reason : Str) : ReloadPlan :=
  if changed then
    { plan with restartRequired := true, restartReasons := plan.restartReasons ++ [reason] }
  else plan

def ReloadPlan.hotIf (plan : ReloadPlan) (changed : Bool) (action : HotAction) : ReloadPlan :=
  if changed then { plan with hotActions := plan.hotActions ++ [action] } else plan

def ReloadPlan.noopIf (plan : ReloadPlan) (changed : Bool) (change : Str) : ReloadPlan :=
  if changed then { plan with noopChanges := plan.noopChanges ++ [change] } else plan

variable (plan : ReloadPlan) (changed : Bool)

@[simp] theorem hasChanges_restartIf (reason : Str) :
    (plan.restartIf changed reason).hasChanges = (plan.hasChanges || changed) := by
  cases changed <;> simp [ReloadPlan.restartIf, ReloadPlan.hasChanges]

@[simp] theorem hasChanges_hotIf (action : HotAction) :
    (plan.hotIf changed action).hasChanges = (plan.hasChanges || changed) := by
  cases changed <;> simp [ReloadPlan.hotIf, ReloadPlan.hasChanges]

@[simp] theorem hasChanges_noopIf (change : Str) :
    (plan.noopIf changed change).hasChanges = (plan.hasChanges || changed) := by
  cases changed <;> simp [ReloadPlan.noopIf, ReloadPlan.hasChanges]

end Plan

section Paths

inductive Component where
  | rootDir
  | curDir
  | parentDir
  | normal (name : List UInt8)
  deriving DecidableEq

def component : List UInt8 → Option Component
  | [] => none
  | [46] => none
  | [46, 46] => some .parentDir
  | name => some (.normal name)

/-- The components two paths are compared by: repeated slashes and dots between them do not
count, but for a dot in front. -/
def components (path : List UInt8) : List Component :=
  match path.splitOn 47 with
  | [46] :: names => .curDir :: names.filterMap component
  | names => (if path.head? = some 47 then [.rootDir] else []) ++ names.filterMap component

def samePath (p q : List UInt8) : Bool := components p = components q

example : components "/srv//claw/./data/".toUTF8.data.toList =
    components "/srv/claw/data".toUTF8.data.toList := by decide

end Paths

section Code

def debugMode : KernelMode → Str
  | .stable => "Stable".toList
  | .default => "Default".toList
  | .dev => "Dev".toList

variable (showReal : FloatBits → Str) (debugPath : List UInt8 → Str)

/-- Sections are compared by their JSON text, which is missing when it cannot be written. -/
def fieldChanged (old new : Data) : Bool := jsonText showReal old ≠ jsonText showReal new

def arrow (old new : Str) : Str := old ++ " -> ".toList ++ new

def buildReloadPlan (old new : KernelConfig) : ReloadPlan :=
  let plan : ReloadPlan := ⟨false, [], [], []⟩
  let plan := plan.restartIf (old.apiListen ≠ new.apiListen)
    ("api_listen changed: ".toList ++ arrow old.apiListen new.apiListen)
  let plan := plan.restartIf (old.apiKey ≠ new.apiKey) "api_key changed".toList
  let plan := plan.restartIf (old.networkEnabled ≠ new.networkEnabled)
    "network_enabled changed".toList
  let plan := plan.restartIf (fieldChanged showReal old.network new.network)
    "network config changed".toList
  let plan := plan.restartIf (fieldChanged showReal old.memory new.memory)
    "memory config changed".toList
  let plan := plan.restartIf (fieldChanged showReal old.defaultModel new.defaultModel)
    "default_model changed".toList
  let plan := plan.restartIf (!samePath old.homeDir new.homeDir)
    ("home_dir changed: ".toList ++ arrow (debugPath old.homeDir) (debugPath new.homeDir))
  let plan := plan.restartIf (!samePath old.dataDir new.dataDir)
    ("data_dir changed: ".toList ++ arrow (debugPath old.dataDir) (debugPath new.dataDir))
  let plan := plan.restartIf (fieldChanged showReal old.vault new.vault)
    "vault config changed".toList
  let plan := plan.hotIf (fieldChanged showReal old.channels new.channels) .reloadChannels
  let plan := plan.hotIf (old.usageFooter ≠ new.usageFooter) .updateUsageFooter
  let plan := plan.hotIf (fieldChanged showReal old.web new.web) .reloadWebConfig
  let plan := plan.hotIf (fieldChanged showReal old.browser new.browser) .reloadBrowserConfig
  let plan := plan.hotIf (fieldChanged showReal old.approval new.approval) .updateApprovalPolicy
  let plan := plan.hotIf (old.maxCronJobs ≠ new.maxCronJobs) .updateCronConfig
  let plan := plan.hotIf (fieldChanged showReal old.webhookTriggers new.webhookTriggers)
    .updateWebhookConfig
  let plan := plan.hotIf (fieldChanged showReal old.extensions new.extensions) .reloadExtensions
  let plan := plan.hotIf (fieldChanged showReal old.mcpServers new.mcpServers) .reloadMcpServers
  let plan := plan.hotIf (fieldChanged showReal old.a2a new.a2a) .reloadA2aConfig
  let plan := plan.hotIf (fieldChanged showReal old.fallbackProviders new.fallbackProviders)
    .reloadFallbackProviders
  let plan := plan.hotIf (fieldChanged showReal old.providerUrls new.providerUrls)
    .reloadProviderUrls
  let plan := plan.noopIf (old.logLevel ≠ new.logLevel)
    ("log_level: ".toList ++ arrow old.logLevel new.logLevel)
  let plan := plan.noopIf (old.language ≠ new.language)
    ("language: ".toList ++ arrow old.language new.language)
  plan.noopIf (old.mode ≠ new.mode)
    ("mode: ".toList ++ arrow (debugMode old.mode) (debugMode new.mode))

end Code

section Equality

/-- The fields that a plan does not look at are the same. -/
structure SameElsewhere (old new : KernelConfig) : Prop where
  users : Same old.users new.users
  workspacesDir : Same old.workspacesDir new.workspacesDir
  media : Same old.media new.media
  links : Same old.links new.links
  reload : Same old.reload new.reload
  includes : Same old.includes new.includes
  execPolicy : Same old.execPolicy new.execPolicy
  bindings : Same old.bindings new.bindings
  broadcast : Same old.broadcast new.broadcast
  autoReply : Same old.autoReply new.autoReply
  canvas : Same old.canvas new.canvas
  tts : Same old.tts new.tts
  docker : Same old.docker new.docker
  pairing : Same old.pairing new.pairing
  authProfiles : Same old.authProfiles new.authProfiles
  thinking : Same old.thinking new.thinking
  budget : Same old.budget new.budget
  oauth : Same old.oauth new.oauth

/-- Two configurations are equal in every field. -/
structure SameConfig (old new : KernelConfig) : Prop extends SameElsewhere old new where
  homeDir : old.homeDir = new.homeDir
  dataDir : old.dataDir = new.dataDir
  logLevel : old.logLevel = new.logLevel
  apiListen : old.apiListen = new.apiListen
  networkEnabled : old.networkEnabled = new.networkEnabled
  defaultModel : Same old.defaultModel new.defaultModel
  memory : Same old.memory new.memory
  network : Same old.network new.network
  channels : Same old.channels new.channels
  apiKey : old.apiKey = new.apiKey
  mode : old.mode = new.mode
  language : old.language = new.language
  mcpServers : Same old.mcpServers new.mcpServers
  a2a : Same old.a2a new.a2a
  usageFooter : old.usageFooter = new.usageFooter
  web : Same old.web new.web
  fallbackProviders : Same old.fallbackProviders new.fallbackProviders
  browser : Same old.browser new.browser
  extensions : Same old.extensions new.extensions
  vault : Same old.vault new.vault
  webhookTriggers : Same old.webhookTriggers new.webhookTriggers
  approval : Same old.approval new.approval
  maxCronJobs : old.maxCronJobs = new.maxCronJobs
  providerUrls : Same old.providerUrls new.providerUrls

/-- The fields that a plan looks at look the same: the two directories have the same
components, the sections with a path or a fraction show the same, and the maps are
handed out in the same order. -/
structure LooksSame (old new : KernelConfig) : Prop where
  homeDir : samePath old.homeDir new.homeDir
  dataDir : samePath old.dataDir new.dataDir
  logLevel : old.logLevel = new.logLevel
  apiListen : old.apiListen = new.apiListen
  networkEnabled : old.networkEnabled = new.networkEnabled
  defaultModel : old.defaultModel = new.defaultModel
  memory : visible old.memory = visible new.memory
  network : old.network = new.network
  channels : old.channels = new.channels
  apiKey : old.apiKey = new.apiKey
  mode : old.mode = new.mode
  language : old.language = new.language
  mcpServers : old.mcpServers = new.mcpServers
  a2a : old.a2a = new.a2a
  usageFooter : old.usageFooter = new.usageFooter
  web : old.web = new.web
  fallbackProviders : old.fallbackProviders = new.fallbackProviders
  browser : old.browser = new.browser
  extensions : old.extensions = new.extensions
  vault : visible old.vault = visible new.vault
  webhookTriggers : old.webhookTriggers = new.webhookTriggers
  approval : old.approval = new.approval
  maxCronJobs : old.maxCronJobs = new.maxCronJobs
  providerUrls : old.providerUrls = new.providerUrls

variable {showReal : FloatBits → Str} {debugPath : List UInt8 → Str}

theorem fieldChanged_iff (hprints : Prints showReal) {shape : Shape} (old new : Typed shape) :
    fieldChanged showReal old new = false ↔ visible old = visible new := by
  rw [fieldChanged, decide_eq_false_iff_not, not_not]
  exact jsonText_eq_iff hprints ⟨shape, old.2, new.2⟩

theorem fieldChanged_shows (hprints : Prints showReal) {shape : Shape}
    (hshows : shape.all Shape.shows) (old new : Typed shape) :
    fieldChanged showReal old new = false ↔ old = new := by
  rw [fieldChanged_iff hprints, visible_eq_self _ ⟨shape, old.2, hshows⟩,
    visible_eq_self _ ⟨shape, new.2, hshows⟩, Option.some.injEq, Subtype.ext_iff]

theorem same_iff {shape : Shape} (hmapless : shape.all Shape.mapless) (old new : Typed shape) :
    Same old.1 new.1 ↔ old = new := by
  rw [same_iff_eq ⟨shape, old.2, hmapless⟩ ⟨shape, new.2, hmapless⟩, Subtype.ext_iff]

theorem hasChanges_iff (hprints : Prints showReal) (old new : KernelConfig) :
    (buildReloadPlan showReal debugPath old new).hasChanges = false ↔ LooksSame old new := by
  have hempty : (⟨false, [], [], []⟩ : ReloadPlan).hasChanges = false := rfl
  simp only [buildReloadPlan, hasChanges_restartIf, hasChanges_hotIf, hasChanges_noopIf, hempty,
    Bool.or_eq_false_iff, decide_eq_false_iff_not, not_not, true_and, Bool.not_eq_eq_eq_not,
    Bool.not_false]
  rw [fieldChanged_shows hprints (by decide) old.network new.network,
    fieldChanged_iff hprints old.memory new.memory,
    fieldChanged_shows hprints (by decide) old.defaultModel new.defaultModel,
    fieldChanged_iff hprints old.vault new.vault,
    fieldChanged_shows hprints (by decide) old.channels new.channels,
    fieldChanged_shows hprints (by decide) old.web new.web,
    fieldChanged_shows hprints (by decide) old.browser new.browser,
    fieldChanged_shows hprints (by decide) old.approval new.approval,
    fieldChanged_shows hprints (by decide) old.webhookTriggers new.webhookTriggers,
    fieldChanged_shows hprints (by decide) old.extensions new.extensions,
    fieldChanged_shows hprints (by decide) old.mcpServers new.mcpServers,
    fieldChanged_shows hprints (by decide) old.a2a new.a2a,
    fieldChanged_shows hprints (by decide) old.fallbackProviders new.fallbackProviders,
    fieldChanged_shows hprints (by decide) old.providerUrls new.providerUrls]
  constructor
  · intro h
    constructor <;> simp only [h]
  · intro h
    simp only [h.homeDir, h.dataDir, h.logLevel, h.apiListen, h.networkEnabled, h.defaultModel,
      h.memory, h.network, h.channels, h.apiKey, h.mode, h.language, h.mcpServers, h.a2a,
      h.usageFooter, h.web, h.fallbackProviders, h.browser, h.extensions, h.vault,
      h.webhookTriggers, h.approval, h.maxCronJobs, h.providerUrls, and_self]

/-- What a plan has to leave out of sight for nothing to be overlooked. -/
structure NothingHidden (old new : KernelConfig) : Prop extends SameElsewhere old new where
  homeDir : old.homeDir = new.homeDir
  dataDir : old.dataDir = new.dataDir
  memory : old.memory = new.memory
  vault : old.vault = new.vault

theorem sameConfig_of_looksSame {old new : KernelConfig} (hlooks : LooksSame old new)
    (hhidden : NothingHidden old new) : SameConfig old new where
  toSameElsewhere := hhidden.toSameElsewhere
  homeDir := hhidden.homeDir
  dataDir := hhidden.dataDir
  logLevel := hlooks.logLevel
  apiListen := hlooks.apiListen
  networkEnabled := hlooks.networkEnabled
  defaultModel := by rw [hlooks.defaultModel]; rfl
  memory := by rw [hhidden.memory]; rfl
  network := by rw [hlooks.network]; rfl
  channels := by rw [hlooks.channels]; rfl
  apiKey := hlooks.apiKey
  mode := hlooks.mode
  language := hlooks.language
  mcpServers := by rw [hlooks.mcpServers]; rfl
  a2a := by rw [hlooks.a2a]; rfl
  usageFooter := hlooks.usageFooter
  web := by rw [hlooks.web]; rfl
  fallbackProviders := by rw [hlooks.fallbackProviders]; rfl
  browser := by rw [hlooks.browser]; rfl
  extensions := by rw [hlooks.extensions]; rfl
  vault := by rw [hhidden.vault]; rfl
  webhookTriggers := by rw [hlooks.webhookTriggers]; rfl
  approval := by rw [hlooks.approval]; rfl
  maxCronJobs := hlooks.maxCronJobs
  providerUrls := by rw [hlooks.providerUrls]; rfl

theorem nothingHidden_of_same {old new : KernelConfig} (h : SameConfig old new) :
    NothingHidden old new where
  toSameElsewhere := h.toSameElsewhere
  homeDir := h.homeDir
  dataDir := h.dataDir
  memory := (same_iff (by decide) _ _).mp h.memory
  vault := (same_iff (by decide) _ _).mp h.vault

theorem looksSame_of_same {old new : KernelConfig} (h : SameConfig old new)
    (hurls : old.providerUrls = new.providerUrls) : LooksSame old new where
  homeDir := by simp [samePath, h.homeDir]
  dataDir := by simp [samePath, h.dataDir]
  logLevel := h.logLevel
  apiListen := h.apiListen
  networkEnabled := h.networkEnabled
  defaultModel := (same_iff (by decide) _ _).mp h.defaultModel
  memory := by rw [(nothingHidden_of_same h).memory]
  network := (same_iff (by decide) _ _).mp h.network
  channels := (same_iff (by decide) _ _).mp h.channels
  apiKey := h.apiKey
  mode := h.mode
  language := h.language
  mcpServers := (same_iff (by decide) _ _).mp h.mcpServers
  a2a := (same_iff (by decide) _ _).mp h.a2a
  usageFooter := h.usageFooter
  web := (same_iff (by decide) _ _).mp h.web
  fallbackProviders := (same_iff (by decide) _ _).mp h.fallbackProviders
  browser := (same_iff (by decide) _ _).mp h.browser
  extensions := (same_iff (by decide) _ _).mp h.extensions
  vault := by rw [(nothingHidden_of_same h).vault]
  webhookTriggers := (same_iff (by decide) _ _).mp h.webhookTriggers
  approval := (same_iff (by decide) _ _).mp h.approval
  maxCronJobs := h.maxCronJobs
  providerUrls := hurls

/-- A plan without changes says that the configurations are equal exactly when nothing has
changed out of its sight and equal maps are handed out in the same order. -/
theorem reload_plan_complete_iff (hprints : Prints showReal) (old new : KernelConfig) :
    ((buildReloadPlan showReal debugPath old new).hasChanges = false ↔ SameConfig old new) ↔
      (LooksSame old new → NothingHidden old new) ∧
        (SameConfig old new → old.providerUrls = new.providerUrls) := by
  rw [hasChanges_iff hprints]
  constructor
  · intro h
    exact ⟨fun hlooks => nothingHidden_of_same (h.mp hlooks), fun hsame => (h.mpr hsame).providerUrls⟩
  · intro h
    exact ⟨fun hlooks => sameConfig_of_looksSame hlooks (h.1 hlooks),
      fun hsame => looksSame_of_same hsame (h.2 hsame)⟩

end Equality

section Examples

def sampleOf {shape : Shape} (h : shape.all Shape.hasValue := by decide +kernel) : Typed shape :=
  ⟨sample shape, fits_sample shape h⟩

def exampleConfig : KernelConfig where
  homeDir := "/home/claw/.clawreform".toUTF8.data.toList
  dataDir := "/home/claw/.clawreform/data".toUTF8.data.toList
  logLevel := "info".toList
  apiListen := "127.0.0.1:4332".toList
  networkEnabled := false
  defaultModel := sampleOf
  memory := sampleOf
  network := sampleOf
  channels := sampleOf
  apiKey := []
  mode := .default
  language := "en".toList
  users := sampleOf
  mcpServers := sampleOf
  a2a := sampleOf
  usageFooter := .full
  web := sampleOf
  fallbackProviders := sampleOf
  browser := sampleOf
  extensions := sampleOf
  vault := sampleOf
  workspacesDir := sampleOf
  media := sampleOf
  links := sampleOf
  reload := sampleOf
  webhookTriggers := sampleOf
  approval := sampleOf
  maxCronJobs := 500
  includes := sampleOf
  execPolicy := sampleOf
  bindings := sampleOf
  broadcast := sampleOf
  autoReply := sampleOf
  canvas := sampleOf
  tts := sampleOf
  docker := sampleOf
  pairing := sampleOf
  authProfiles := sampleOf
  thinking := sampleOf
  budget := sampleOf
  providerUrls := sampleOf
  oauth := sampleOf

/-- A budget of a dollar an hour. -/
def tightBudget : Typed budgetConfig :=
  ⟨.struct [("max_hourly_usd".toList, .real (.double 0x3FF0000000000000#64)),
    ("max_daily_usd".toList, .real (.double 0#64)),
    ("max_monthly_usd".toList, .real (.double 0#64)),
    ("alert_threshold".toList, .real (.double 0#64))], by decide +kernel⟩

def urlEntries : List (Str × Data) :=
  [("groq".toList, .text "http://10.0.0.2/v1".toList),
    ("ollama".toList, .text "http://10.0.0.3/v1".toList)]

def providerUrls : Typed (.map .text) := ⟨.map urlEntries, by decide +kernel⟩

def reorderedUrls : Typed (.map .text) := ⟨.map urlEntries.reverse, by decide +kernel⟩

/-- A printer that knows the zeros and names all other numbers by their bits. -/
def printReal : FloatBits → Str
  | .single bits => if bits = 0#32 then "0.0".toList else showNat bits.toNat
  | .double bits => if bits = 0#64 then "0.0".toList else showNat bits.toNat

theorem zero_ne_showNat (n : Nat) : "0.0".toList ≠ showNat n := by
  intro h
  have hdot : '.' ∈ showNat n := h ▸ by decide
  exact absurd (showNat_digits n _ hdot) (by decide)

theorem prints_printReal : Prints printReal where
  number x _ := by
    cases x <;> simp only [printReal] <;> split <;> first | decide | exact numberText_showNat _
  single a b _ _ h := by
    simp only [printReal] at h
    split at h <;> split at h
    · simp_all
    · exact absurd h (zero_ne_showNat _)
    · exact absurd h.symm (zero_ne_showNat _)
    · exact BitVec.eq_of_toNat_eq (showNat_inj h)
  double a b _ _ h := by
    simp only [printReal] at h
    split at h <;> split at h
    · simp_all
    · exact absurd h (zero_ne_showNat _)
    · exact absurd h.symm (zero_ne_showNat _)
    · exact BitVec.eq_of_toNat_eq (showNat_inj h)

def quotePath (path : List UInt8) : Str := '"' :: ((pathText path).getD []) ++ ['"']

theorem reload_plan_complete_new_key :
    (buildReloadPlan printReal quotePath exampleConfig
        { exampleConfig with apiKey := "secret".toList }).hasChanges = false ↔
      SameConfig exampleConfig { exampleConfig with apiKey := "secret".toList } := by
  apply (reload_plan_complete_iff prints_printReal _ _).mpr
  exact ⟨fun h => absurd h.apiKey (by decide), fun h => absurd h.apiKey (by decide)⟩

/-- A new budget is no change for the plan, and one map in two orders is one. -/
theorem reload_plan_incomplete :
    ¬ ((buildReloadPlan printReal quotePath exampleConfig
          { exampleConfig with budget := tightBudget }).hasChanges = false ↔
        SameConfig exampleConfig { exampleConfig with budget := tightBudget }) ∧
      ¬ ((buildReloadPlan printReal quotePath { exampleConfig with providerUrls := providerUrls }
          { exampleConfig with providerUrls := reorderedUrls }).hasChanges = false ↔
        SameConfig { exampleConfig with providerUrls := providerUrls }
          { exampleConfig with providerUrls := reorderedUrls }) := by
  constructor
  · rw [hasChanges_iff prints_printReal]
    intro h
    have hlooks : LooksSame exampleConfig { exampleConfig with budget := tightBudget } := by
      constructor <;> rfl
    have hbudget := (same_iff (by decide) _ _).mp (h.mp hlooks).budget
    simp [Subtype.ext_iff, exampleConfig, sampleOf, tightBudget, budgetConfig, struct, sample,
      sampleFields] at hbudget
  · rw [hasChanges_iff prints_printReal]
    intro h
    have hsame : SameConfig { exampleConfig with providerUrls := providerUrls }
        { exampleConfig with providerUrls := reorderedUrls } := by
      constructor <;> first | rfl | constructor <;> rfl
    have hurls := (h.mpr hsame).providerUrls
    simp [Subtype.ext_iff, providerUrls, reorderedUrls, urlEntries] at hurls

end Examples

end Clawreform.Kernel.ConfigReload
