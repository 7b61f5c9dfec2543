import Clawreform.Lib.Json
import Clawreform.Lib.Text

namespace Clawreform.Skills

open Clawreform.Lib.Text
open Clawreform.Lib.Json (Value)

inductive SkillRuntime where
  | python
  | wasm
  | node
  | builtin
  | promptOnly
  deriving DecidableEq

inductive SkillSource where
  | native
  | bundled
  | openClaw
  | clawHub (slug version : Str)
  deriving DecidableEq

structure SkillToolDef where
  name : Str
  description : Str
  inputSchema : Value
  deriving DecidableEq

structure SkillMeta where
  name : Str
  version : Str
  description : Str
  author : Str
  license : Str
  tags : List Str
  deriving DecidableEq

structure SkillRequirements where
  tools : List Str
  capabilities : List Str
  deriving DecidableEq

structure SkillManifest where
  skill : SkillMeta
  runtimeType : SkillRuntime
  entry : Str
  tools : List SkillToolDef
  requirements : SkillRequirements
  promptContext : Option Str
  source : Option SkillSource
  deriving DecidableEq

inductive SkillError where
  | notFound (message : Str)
  | yamlParse (message : Str)
  | tomlParse
  | invalidManifest
  | io
  deriving DecidableEq

section Frontmatter

structure OpenClawRequires where
  bins : List Str
  env : List Str
  deriving DecidableEq

structure OpenClawCommand where
  name : Str
  description : Str
  deriving DecidableEq

structure OpenClawMeta where
  requires : Option OpenClawRequires
  commands : List OpenClawCommand
  deriving DecidableEq

structure SkillMdFrontmatter where
  name : Str
  description : Str
  openclaw : Option OpenClawMeta
  deriving DecidableEq

structure ConvertedSkillMd where
  manifest : SkillManifest
  promptContext : Str
  toolTranslations : List (Str × Str)
  requiredBins : List Str
  requiredEnv : List Str
  deriving DecidableEq

variable (parseYaml : Str → Except Str SkillMdFrontmatter)

def parseSkillmdStr (content : Str) : Except SkillError (SkillMdFrontmatter × Str) :=
  let trimmed := trimStart (replaceText content "\r\n".toList "\n".toList)
  match stripPrefix "---".toList trimmed with
  | none => .error (.yamlParse "SKILL.md must start with YAML frontmatter (---)".toList)
  | some afterFirst =>
    match find "\n---".toList afterFirst with
    | none => .error (.yamlParse "Missing closing --- in SKILL.md frontmatter".toList)
    | some closePos =>
      match parseYaml (afterFirst.take closePos) with
      | .error e => .error (.yamlParse ("Invalid YAML frontmatter: ".toList ++ e))
      | .ok frontmatter => .ok (frontmatter, trim (afterFirst.drop (closePos + 4)))

end Frontmatter

section Tools

def toolNames : List (List String × String) :=
  [(["Read", "read", "read_file"], "file_read"), (["Write", "write", "write_file"], "file_write"),
    (["Edit", "edit"], "file_write"), (["Glob", "glob", "list_files"], "file_list"),
    (["Grep", "grep"], "file_list"),
    (["Bash", "bash", "exec", "execute_command"], "shell_exec"),
    (["WebSearch", "web_search"], "web_search"),
    (["WebFetch", "fetch_url", "web_fetch"], "web_fetch"),
    (["browser_navigate"], "browser_navigate"),
    (["memory_search", "memory_recall"], "memory_recall"),
    (["memory_save", "memory_store"], "memory_store"),
    (["sessions_send", "agent_message"], "agent_send"),
    (["sessions_list", "agents_list", "agent_list"], "agent_list"),
    (["sessions_spawn"], "agent_send")]

def mapToolName (openclawName : Str) : Option Str :=
  (toolNames.find? fun row => (row.1.map String.toList).contains openclawName).map (·.2.toList)

def isKnownClawreformTool (name : Str) : Bool :=
  (["file_read", "file_write", "file_list", "shell_exec", "web_search", "web_fetch",
    "browser_navigate", "memory_recall", "memory_store", "agent_send", "agent_list", "agent_spawn",
    "agent_kill", "agent_find", "task_post", "task_claim", "task_complete", "task_list",
    "event_publish", "schedule_create", "schedule_list", "schedule_delete", "image_analyze",
    "location_get"].map String.toList).contains name

def clawreformName (name : Str) : Str :=
  match mapToolName name with
  | some mapped => mapped
  | none => if isKnownClawreformTool name then name else name.map fun c => if c = '-' then '_' else c

def commandSchema : Value :=
  .obj [("type", .string "object".toList), ("properties", .obj [("input", .obj
    [("type", .string "string".toList),
      ("description", .string "Input for the command".toList)])])]

def commandTool (cmd : OpenClawCommand) : SkillToolDef :=
  ⟨clawreformName cmd.name,
    if cmd.description = [] then "Execute ".toList ++ cmd.name ++ " command".toList
    else cmd.description, commandSchema⟩

end Tools

section Conversion

variable (parseYaml : Str → Except Str SkillMdFrontmatter)

/-- The conversion of a SKILL.md text. The two converters differ in where the skill comes from. -/
def convertText (author license tag : Str) (source : SkillSource) (nameHint content : Str) :
    Except SkillError ConvertedSkillMd :=
  match parseSkillmdStr parseYaml content with
  | .error e => .error e
  | .ok (frontmatter, body) =>
    let commands := (frontmatter.openclaw.elim [] OpenClawMeta.commands).filter (·.name ≠ [])
    let requires := frontmatter.openclaw.bind OpenClawMeta.requires
    .ok {
      manifest := {
        skill := ⟨if frontmatter.name = [] then nameHint else frontmatter.name, "0.1.0".toList,
          frontmatter.description, author, license, [tag, "prompt-only".toList]⟩
        runtimeType := .promptOnly
        entry := []
        tools := commands.map commandTool
        requirements := ⟨[], []⟩
        promptContext := some body
        source := some source }
      promptContext := body
      toolTranslations :=
        commands.filterMap fun cmd => (mapToolName cmd.name).map fun mapped => (cmd.name, mapped)
      requiredBins := requires.elim [] OpenClawRequires.bins
      requiredEnv := requires.elim [] OpenClawRequires.env }

/-- A skill without a name is called like its directory. -/
def convertSkillmd (dirName content : Str) : Except SkillError ConvertedSkillMd :=
  convertText parseYaml [] [] "openclaw-compat".toList .openClaw dirName content

def convertSkillmdStr (nameHint content : Str) : Except SkillError ConvertedSkillMd :=
  convertText parseYaml "aegntic.ai".toList "Apache-2.0".toList "bundled".toList .bundled nameHint
    content

theorem convertText_promptContext {author license tag nameHint content : Str} {source : SkillSource}
    {converted : ConvertedSkillMd}
    (h : convertText parseYaml author license tag source nameHint content = .ok converted) :
    converted.manifest.promptContext = some converted.promptContext := by
  unfold convertText at h
  split at h
  · cases h
  · cases h
    rfl

end Conversion

end Clawreform.Skills
