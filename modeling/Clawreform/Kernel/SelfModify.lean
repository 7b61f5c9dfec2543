import Clawreform.Lib.Calendar
import Clawreform.Lib.FileStore
import Clawreform.Lib.Run
import Clawreform.Runtime.WorkspaceSandbox

namespace Clawreform.Kernel.SelfModify

open Clawreform.Lib Clawreform.Lib.Text Clawreform.Lib.Program Clawreform.Lib.FileStore
open Clawreform.Lib.Utf8 (encode)
open Clawreform.Runtime.WorkspaceSandbox (Component components)

section Data

inductive ChangeType where
  | create
  | modify
  | delete
  deriving DecidableEq

structure FileChange where
  path : Str
  changeType : ChangeType
  diffPreview : Str
  linesAdded : Nat
  linesRemoved : Nat
  deriving DecidableEq

inductive RiskLevel where
  | low
  | medium
  | high
  | critical
  deriving DecidableEq

def RiskLevel.rank : RiskLevel → Nat
  | .low => 0
  | .medium => 1
  | .high => 2
  | .critical => 3

structure ModifyPlan where
  id : Str
  description : Str
  files : List FileChange
  complexity : Nat
  requiresApproval : Bool
  riskLevel : RiskLevel
  deriving DecidableEq

structure ValidationResult where
  success : Bool
  buildPassed : Bool
  testsPassed : Bool
  clippyPassed : Bool
  errors : List Str
  warnings : List Str
  deriving DecidableEq

structure ModifyResult where
  success : Bool
  backupId : Str
  filesModified : Nat
  validation : ValidationResult
  deriving DecidableEq

structure RollbackResult where
  success : Bool
  backupId : Str
  deriving DecidableEq

structure SelfModifyConfig where
  maxFilesPerMod : Nat := 5
  autoRollback : Bool := true
  deriving DecidableEq

structure ModifyState where
  currentPlan : Option ModifyPlan
  currentBackup : Option Str
  lastRequest : Option Str
  deriving DecidableEq

inductive ModifyError where
  | noPlan
  | planMismatch
  | noBackup
  | tooManyFiles (files limit : Nat)
  | validationFailed (result : ValidationResult)
  | io (e : IoError)
  | json
  | analysis (text : Str)
  | modification (text : Str)
  deriving DecidableEq

structure BackupMetadata where
  id : Str
  createdAt : Nat
  files : List FileChange
  deriving DecidableEq

end Data

section Clock

/-- The day the Unix epoch begins with. -/
def epochDay : Nat := 719528

/-- `%Y%m%d_%H%M%S` of a second. -/
def stamp (second : Nat) : Str :=
  let day := epochDay + second / 86400
  let time := second % 86400
  Calendar.digits 4 (Calendar.year day) ++ Calendar.digits 2 (Calendar.month day) ++
    Calendar.digits 2 (Calendar.dayOfMonth day) ++ '_' :: Calendar.digits 2 (time / 3600) ++
    Calendar.digits 2 (time / 60 % 60) ++ Calendar.digits 2 (time % 60)

example : stamp 1700000000 = "20231114_221320".toList := by decide

end Clock

section Analyzer

inductive TargetArea where
  | api
  | kernel
  | runtime
  | skills
  | hands
  | config
  | cli
  | channels
  | multiple
  deriving DecidableEq

inductive Action where
  | addEndpoint
  | addFeature
  | modifyBehavior
  | addConfig
  | addSkill
  | addHand
  | fix
  | refactor
  deriving DecidableEq

structure Intent where
  description : Str
  targetArea : TargetArea
  action : Action
  deriving DecidableEq

def targetAreaOf (requestLower : Str) : TargetArea :=
  let has := containsText requestLower
  if has "api" || has "endpoint" then .api
  else if has "skill" then .skills
  else if has "hand" then .hands
  else if has "config" then .config
  else if has "cli" || has "command" then .cli
  else if has "channel" then .channels
  else if has "kernel" || has "core" then .kernel
  else if has "runtime" || has "agent" then .runtime
  else .multiple

def actionOf (requestLower : Str) : Action :=
  let has := containsText requestLower
  if has "add" || has "new" then
    if has "endpoint" then .addEndpoint
    else if has "skill" then .addSkill
    else if has "hand" then .addHand
    else if has "config" then .addConfig
    else .addFeature
  else if has "fix" || has "bug" then .fix
  else if has "refactor" || has "improve" then .refactor
  else if has "change" || has "modify" then .modifyBehavior
  else .addFeature

def fileChange (path : String) (changeType : ChangeType) (diffPreview : String)
    (linesAdded linesRemoved : Nat) : FileChange :=
  ⟨path.toList, changeType, diffPreview.toList, linesAdded, linesRemoved⟩

def findAffectedFiles : TargetArea → List FileChange
  | .api =>
    [fileChange "crates/clawreform-api/src/server.rs" .modify
        "// Route registration will be added" 5 0,
      fileChange "crates/clawreform-api/src/routes.rs" .modify
        "// Handler function will be added" 30 0]
  | .kernel =>
    [fileChange "crates/clawreform-kernel/src/kernel.rs" .modify "// Kernel changes" 20 5]
  | .skills =>
    [fileChange "crates/clawreform-skills/bundled/new-skill/SKILL.md" .create
      "// New skill content" 100 0]
  | _ => [fileChange "crates/clawreform-kernel/src/lib.rs" .modify "// Module changes" 10 0]

def estimateComplexity (files : List FileChange) : Nat :=
  let totalLines := (files.map fun f => f.linesAdded + f.linesRemoved).sum
  if totalLines < 50 then 1
  else if totalLines < 100 then 3
  else if totalLines < 200 then 5
  else if totalLines < 500 then 7
  else 9

def assessRisk : Action → RiskLevel
  | .addConfig | .addSkill => .low
  | .addEndpoint | .addHand => .medium
  | .addFeature | .modifyBehavior => .medium
  | .fix => .medium
  | .refactor => .high

variable (toLowercase : Str → Str)

def parseIntent (request : Str) : Intent :=
  let requestLower := toLowercase request
  ⟨request, targetAreaOf requestLower, actionOf requestLower⟩

def analyzeRequest (request : Str) (second : Nat) : Except ModifyError ModifyPlan :=
  let intent := parseIntent toLowercase request
  let affectedFiles := findAffectedFiles intent.targetArea
  let risk := assessRisk intent.action
  .ok ⟨"mod_".toList ++ stamp second, intent.description, affectedFiles,
    estimateComplexity affectedFiles, decide (RiskLevel.high.rank ≤ risk.rank), risk⟩

end Analyzer

section Files

/-- Where a path leads from a directory. A `..` is taken by name, and above the root is the
root. -/
def enter : Loc → Component → Loc
  | _, .rootDir => []
  | loc, .curDir => loc
  | loc, .parentDir => loc.dropLast
  | loc, .normal name => loc ++ [name]

def place (base : Loc) (path : Str) : Loc := (components path).foldl enter base

/-- The place of `join(path).parent()`. -/
def parentPlace (base : Loc) (path : Str) : Loc :=
  if components path = [] then base.dropLast else (components path).dropLast.foldl enter base

def extension (path : Str) : Option Str :=
  (Runtime.WorkspaceSandbox.fileName path).bind fun name =>
    match beforeLast '.' name with
    | none => none
    | some stem => if stem = [] ∨ name = "..".toList then none else some (afterLast '.' name)

def generatePlaceholderContent (path : Str) : Str :=
  let ext := extension path
  if ext = some "rs".toList then "// TODO: Implement\n".toList
  else if ext = some "md".toList then "# TODO: Document\n".toList
  else if ext = some "toml".toList then "# TODO: Configure\n".toList
  else []

def createdContent (file : FileChange) : Str :=
  "// Auto-generated by ClawReform self-modification\n// Request: ".toList ++ file.diffPreview ++
    "\n\n".toList ++ generatePlaceholderContent file.path

def applyDiff (original diff : Str) : Str :=
  original ++ "\n\n// Self-modification applied:\n// ".toList ++
    "\n// ".toList.intercalate (lines diff)

def io {α : Type} (x : EStateM IoError Volume α) : EStateM ModifyError Volume α :=
  EStateM.adaptExcept ModifyError.io x

variable (debugStr : Str → Str) (sourceDir : Loc)

def createFile (faults : Faults) (file : FileChange) : EStateM ModifyError Volume Unit := do
  io (createDirAll faults (parentPlace sourceDir file.path))
  io (writeFile faults (place sourceDir file.path) (encode (createdContent file)))

def modifyFile (faults : Faults) (file : FileChange) : EStateM ModifyError Volume Unit := do
  let path := place sourceDir file.path
  if ← read (·.exists path) then
    let content ← io (readToString faults path)
    io (writeFile faults path (encode (applyDiff content file.diffPreview)))
  else throw (.modification ("File not found: ".toList ++ debugStr file.path))

def deleteFile (faults : Faults) (file : FileChange) : EStateM ModifyError Volume Unit := do
  let path := place sourceDir file.path
  if ← read (·.exists path) then io (removeFile faults path)

def applyChange (faults : Faults) (file : FileChange) : EStateM ModifyError Volume Unit :=
  match file.changeType with
  | .create => createFile sourceDir faults file
  | .modify => modifyFile debugStr sourceDir faults file
  | .delete => deleteFile sourceDir faults file

/-- The faults come in the order of the changes. -/
def applyPlan (faults : Nat → Faults) (plan : ModifyPlan) : EStateM ModifyError Volume Unit :=
  plan.files.zipIdx.forM fun p => applyChange debugStr sourceDir (faults p.2) p.1

end Files

section Backups

variable (printMetadata : BackupMetadata → Option Str)
  (parseMetadata : Str → Option BackupMetadata) (backupDir sourceDir : Loc)

def metadataName : Str := "metadata.json".toList

def backupIdOf (second : Nat) : Str := "backup_".toList ++ stamp second

def backupFile (backupPath : Loc) (faults : Faults) (file : FileChange) :
    EStateM ModifyError Volume Unit := do
  if file.changeType = .create then pure ()
  else
    let src := place sourceDir file.path
    let dst := place backupPath file.path
    if ← read (·.exists src) then
      io (createDirAll faults (parentPlace backupPath file.path))
      io (copy faults src dst)

/-- The clock is read twice, for the name and for the metadata. The faults are those of making
the directory, of the files in turn, and of writing the metadata. -/
def createBackup (second createdAt : Nat) (faults : Nat → Faults) (files : List FileChange) :
    EStateM ModifyError Volume Str := do
  let backupId := backupIdOf second
  let backupPath := backupDir ++ [backupId]
  io (createDirAll (faults 0) backupPath)
  (files.zipIdx 1).forM fun p => backupFile sourceDir backupPath (faults p.2) p.1
  match printMetadata ⟨backupId, createdAt, files⟩ with
  | none => throw .json
  | some metadataJson =>
    io (writeFile (faults (files.length + 1)) (backupPath ++ [metadataName])
      (encode metadataJson))
    pure backupId

def restoreFile (backupPath : Loc) (faults : Faults) (file : FileChange) :
    EStateM ModifyError Volume Unit := do
  let src := place backupPath file.path
  let dst := place sourceDir file.path
  if ← read (·.exists src) then
    io (createDirAll faults (parentPlace sourceDir file.path))
    io (copy faults src dst)
  else if file.changeType = .create then
    if ← read (·.exists dst) then io (removeFile faults dst)

def restoreBackup (faults : Nat → Faults) (backupId : Str) : EStateM ModifyError Volume Unit := do
  let backupPath := backupDir ++ [backupId]
  if ← read (·.exists backupPath) then
    let metadataJson ← io (readToString (faults 0) (backupPath ++ [metadataName]))
    match parseMetadata metadataJson with
    | none => throw .json
    | some metadata =>
      (metadata.files.zipIdx 1).forM fun p => restoreFile sourceDir backupPath (faults p.2) p.1
  else throw (.modification ("Backup not found: ".toList ++ backupId))

end Backups

section Manager

/-- The analyzer, the two crates the backup is written with, and the two directories. -/
structure SelfModifier where
  analyzeRequest : Str → Nat → Except ModifyError ModifyPlan
  debugStr : Str → Str
  printMetadata : BackupMetadata → Option Str
  parseMetadata : Str → Option BackupMetadata
  sourceDir : Loc
  backupDir : Loc
  config : SelfModifyConfig

structure World where
  volume : Volume
  state : ModifyState

/-- What a call of `apply` meets: the clock, the faults of its three walks, and what cargo says
of the result. Validation changes none of the files. -/
structure ApplyEnv where
  second : Nat
  createdAt : Nat
  backup : Nat → Faults
  changes : Nat → Faults
  validation : Except ModifyError ValidationResult
  restore : Nat → Faults

variable (m : SelfModifier)

def analyze (w : World) (request : Str) (second : Nat) : World × Except ModifyError ModifyPlan :=
  let state := { w.state with lastRequest := some request }
  match m.analyzeRequest request second with
  | .error e => ({ w with state }, .error e)
  | .ok plan =>
    if m.config.maxFilesPerMod < plan.files.length then
      ({ w with state }, .error (.tooManyFiles plan.files.length m.config.maxFilesPerMod))
    else ({ w with state := { state with currentPlan := some plan } }, .ok plan)

/-- After a validation that did not pass. -/
def giveUp (env : ApplyEnv) (backupId : Str) (w : World) (e : ModifyError) :
    World × Except ModifyError ModifyResult :=
  if m.config.autoRollback then
    match restoreBackup m.parseMetadata m.backupDir m.sourceDir env.restore backupId w.volume with
    | .ok () volume => ({ w with volume }, .error e)
    | .error e volume => ({ w with volume }, .error e)
  else (w, .error e)

def apply (w : World) (planId : Str) (env : ApplyEnv) :
    World × Except ModifyError ModifyResult :=
  match w.state.currentPlan with
  | none => (w, .error .noPlan)
  | some plan =>
    if plan.id ≠ planId then (w, .error .planMismatch)
    else
      match createBackup m.printMetadata m.backupDir m.sourceDir env.second env.createdAt env.backup
          plan.files w.volume with
      | .error e volume => ({ w with volume }, .error e)
      | .ok backupId volume =>
        let state := { w.state with currentBackup := some backupId }
        match applyPlan m.debugStr m.sourceDir env.changes plan volume with
        | .error e volume => (⟨volume, state⟩, .error e)
        | .ok () volume =>
          match env.validation with
          | .ok result =>
            if result.success then
              (⟨volume, state⟩, .ok ⟨true, backupId, plan.files.length, result⟩)
            else giveUp m env backupId ⟨volume, state⟩ (.validationFailed result)
          | .error e => giveUp m env backupId ⟨volume, state⟩ e

def rollback (w : World) (faults : Nat → Faults) : World × Except ModifyError RollbackResult :=
  match w.state.currentBackup with
  | none => (w, .error .noBackup)
  | some backupId =>
    match restoreBackup m.parseMetadata m.backupDir m.sourceDir faults backupId w.volume with
    | .error e volume => ({ w with volume }, .error e)
    | .ok () volume => ({ w with volume }, .ok ⟨true, backupId⟩)

end Manager

end Clawreform.Kernel.SelfModify
