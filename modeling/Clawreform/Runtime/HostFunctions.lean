import Clawreform.Runtime.Ssrf
import Clawreform.Runtime.WorkspaceSandbox
import Clawreform.Types.Capability

namespace Clawreform.Runtime.HostFunctions

open Clawreform.Lib Clawreform.Lib.Text Clawreform.Lib.FileWalk Clawreform.Lib.Wildcard
open Clawreform.Lib.Json (Value)
open Clawreform.Lib.Url (Target)
open Clawreform.Types
open Clawreform.Runtime.WorkspaceSandbox (Files Component components parent fileName ioText)
open Clawreform.Runtime.Ssrf (Dns isSsrfTarget extractHostFromUrl)

section Patterns

/-- What every pattern that allows the first text allows too: the text itself, or, of a text
with a star in it, the texts that begin and end with it. -/
def Follows (p q : Str) : Prop :=
  q = p ∨ '*' ∈ p ∧ p <:+ q ∧ (p.head? = some '*' ∨ p <+: q)

instance (p q : Str) : Decidable (Follows p q) := inferInstanceAs (Decidable (_ ∨ _))

variable {pattern p q u v w : Str}

theorem star_notMem_of_literal (h : globPattern pattern = .literal w) : '*' ∉ pattern := by
  unfold globPattern at h
  split at h
  · cases h
  · split at h
    · cases h
    · split at h
      · cases h
      · assumption

theorem head_of_span (h : globPattern pattern = .span u v) : u.head? ≠ some '*' := by
  intro hu
  have hpattern : pattern.head? = some '*' := by
    rw [globPattern_span h]
    cases u with
    | nil => cases hu
    | cons c u => exact hu
  rw [globPattern, if_pos hpattern] at h
  cases h
  cases hu

theorem follows_iff :
    (∀ pattern, globMatches pattern p = true → globMatches pattern q = true) ↔ Follows p q := by
  simp only [globMatches_iff]
  constructor
  · intro h
    by_cases hstar : '*' ∈ p
    · have hsuffix : p <:+ q := by
        have hm := h ('*' :: p) (by simp [globPattern, mem_span_nil_left])
        simpa [globPattern, mem_span_nil_left] using hm
      by_cases hhead : p.head? = some '*'
      · exact Or.inr ⟨hstar, hsuffix, Or.inl hhead⟩
      · have hfront : globPattern (p ++ ['*']) = .span p [] := by
          have hne : (p ++ ['*']).head? ≠ some '*' := by
            cases p with
            | nil => cases hstar
            | cons c p => exact hhead
          rw [globPattern, if_neg hne, if_pos (by simp)]
          simp
        have hm := h (p ++ ['*']) (by rw [hfront, mem_span_nil_right])
        rw [hfront, mem_span_nil_right] at hm
        exact Or.inr ⟨hstar, hsuffix, Or.inr hm⟩
    · left
      have hm := h p (mem_globPattern_self p)
      cases hp : globPattern p with
      | literal w =>
        rw [hp] at hm
        exact hm.trans (globPattern_literal hp)
      | span u v => exact absurd (globPattern_span hp ▸ by simp) hstar
  · rintro (rfl | ⟨hstar, hsuffix, hfront⟩) pattern hm
    · exact hm
    · cases hpattern : globPattern pattern with
      | literal w =>
        rw [hpattern] at hm
        obtain rfl : p = w := hm
        exact absurd (globPattern_literal hpattern ▸ hstar) (star_notMem_of_literal hpattern)
      | span u v =>
        rw [hpattern, mem_span_iff] at hm
        rw [mem_span_iff]
        refine ⟨?_, hm.2.1.trans hsuffix, hm.2.2.trans hsuffix.length_le⟩
        obtain hhead | hprefix := hfront
        · cases u with
          | nil => exact List.nil_prefix
          | cons c u =>
            obtain ⟨t, rfl⟩ := hm.1
            exact (head_of_span hpattern (show (c :: u).head? = some '*' from hhead)).elim
        · exact hm.1.trans hprefix

end Patterns

section Code

inductive Verb where
  | get
  | post (body : Str)
  | put (body : Str)
  | delete
  deriving DecidableEq

structure KernelHandle where
  memoryRecall : Str → Except Str (Option Value)
  memoryStore : Str → Value → Except Str Unit
  sendToAgent : Str → Str → Except Str Str
  spawnAgentChecked : Str → Str → List Capability → Except Str (Str × Str)

structure GuestState where
  capabilities : List Capability
  kernel : Option KernelHandle
  agentId : Str

/-- What the system and the network answer; `redirects` are the servers that the answers of
others lead the client to. -/
structure World where
  files : Files
  readToString : Loc → Except Str Str
  write : Loc → Str → Except Str Unit
  readDir : Loc → Except Str (List Str)
  dns : Dns
  toAscii : Str → Option Str
  toUppercase : Str → Str
  send : Verb → Str → Except Str (Nat × Except Str Str)
  redirects : Verb → Target → List Target
  output : Str → List Str → Except Str (Option Int × Str × Str)
  var : Str → Option Str
  now : Nat

inductive Effect where
  | read (loc : Loc)
  | list (loc : Loc)
  | write (loc : Loc) (content : Str)
  | connect (target : Target)
  | run (command : Str) (args : List Str)
  | readVar (name : Str)
  | recall (key : Str)
  | store (key : Str) (value : Value)
  | message (target message : Str)
  | spawn (manifest : Str)

abbrev Answer := Value × List Effect

def failed (message : Str) : Value := .obj [("error", .string message)]

def done (v : Value) : Value := .obj [("ok", v)]

def missing (name : String) : Answer :=
  (failed ("Missing '".toList ++ name.toList ++ "' parameter".toList), [])

def strParam (name : String) (params : Value) : Option Str :=
  (params.get name.toList).bind Value.asStr

/-- `debug` is the derived `Debug` rendering of a capability. -/
def checkCapability (debug : Capability → Str) (capabilities : List Capability)
    (required : Capability) : Except Value Unit :=
  if capabilities.any (capabilityMatches · required) then .ok ()
  else .error (failed ("Capability denied: ".toList ++ debug required))

def traversalDenied : Value := failed "Path traversal denied: '..' components forbidden".toList

def safeResolvePath (fs : Files) (path : Str) : Except Value Loc :=
  if .parentDir ∈ components path then .error traversalDenied
  else (fs.canonicalize path).mapError fun e => failed ("Cannot resolve path: ".toList ++ ioText e)

def safeResolveParent (fs : Files) (path : Str) : Except Value Loc :=
  if .parentDir ∈ components path then .error traversalDenied
  else
    match (parent path).filter (· ≠ []) with
    | none => .error (failed "Invalid path: no parent directory".toList)
    | some dir =>
      match fs.canonicalize dir with
      | .error e => .error (failed ("Cannot resolve parent directory: ".toList ++ ioText e))
      | .ok canonicalParent =>
        match fileName path with
        | none => .error (failed "Invalid path: no file name".toList)
        | some name =>
          if containsText name ".." then
            .error (failed "Path traversal denied in file name".toList)
          else .ok (canonicalParent ++ [name])

variable (debug : Capability → Str) (w : World) (state : GuestState) (params : Value)

/-- Go on only when the capability is granted. -/
def guarded (required : Capability) (act : Answer) : Answer :=
  match checkCapability debug state.capabilities required with
  | .error e => (e, [])
  | .ok () => act

def hostTimeNow : Answer := (done (.number (showNat w.now)), [])

def hostFsRead : Answer :=
  match strParam "path" params with
  | none => missing "path"
  | some path =>
    guarded debug state (.fileRead path) <|
      match safeResolvePath w.files path with
      | .error e => (e, [])
      | .ok canonical =>
        match w.readToString canonical with
        | .ok content => (done (.string content), [.read canonical])
        | .error e => (failed ("fs_read failed: ".toList ++ e), [.read canonical])

/-- The place a file is opened at: where a symbolic link that stands there leads. -/
def opened (fs : Files) (place : Loc) : Except IoError Loc :=
  match walk fs.tree.node fs.systemLinks [] place with
  | .found loc => .ok loc
  | .missing loc => .ok loc
  | .failed e => .error e

def hostFsWrite : Answer :=
  match strParam "path" params with
  | none => missing "path"
  | some path =>
    match strParam "content" params with
    | none => missing "content"
    | some content =>
      guarded debug state (.fileWrite path) <|
        match safeResolveParent w.files path with
        | .error e => (e, [])
        | .ok writePath =>
          match opened w.files writePath with
          | .error e => (failed ("fs_write failed: ".toList ++ ioText e), [])
          | .ok loc =>
            match w.write loc content with
            | .ok () => (done (.bool true), [.write loc content])
            | .error e => (failed ("fs_write failed: ".toList ++ e), [.write loc content])

def hostFsList : Answer :=
  match strParam "path" params with
  | none => missing "path"
  | some path =>
    guarded debug state (.fileRead path) <|
      match safeResolvePath w.files path with
      | .error e => (e, [])
      | .ok canonical =>
        match w.readDir canonical with
        | .ok names => (done (.array (names.map .string)), [.list canonical])
        | .error e => (failed ("fs_list failed: ".toList ++ e), [.list canonical])

def verb (params : Value) : Verb :=
  let method := (strParam "method" params).getD "GET".toList
  let body := (strParam "body" params).getD []
  if w.toUppercase method = "POST".toList then .post body
  else if w.toUppercase method = "PUT".toList then .put body
  else if w.toUppercase method = "DELETE".toList then .delete
  else .get

/-- The servers the client connects to, one after the other. -/
def World.connections (verb : Verb) (url : Str) : List Target :=
  match Url.parse w.toAscii url with
  | none => []
  | some target => target :: w.redirects verb target

def hostNetFetch : Answer :=
  match strParam "url" params with
  | none => missing "url"
  | some url =>
    match isSsrfTarget w.dns url with
    | .error e => (e, [])
    | .ok () =>
      guarded debug state (.netConnect (extractHostFromUrl url)) <|
        let effects := (w.connections (verb w params) url).map .connect
        match w.send (verb w params) url with
        | .ok (status, .ok text) =>
          (done (.obj [("status", .number (showNat status)), ("body", .string text)]), effects)
        | .ok (_, .error e) => (failed ("Failed to read response: ".toList ++ e), effects)
        | .error e => (failed ("Request failed: ".toList ++ e), effects)

def intValue : Option Int → Value
  | none => .null
  | some (.ofNat n) => .number (showNat n)
  | some (.negSucc n) => .number ('-' :: showNat (n + 1))

def argsParam (params : Value) : List Str :=
  (((params.get "args".toList).bind Value.asArray).getD []).filterMap Value.asStr

def hostShellExec : Answer :=
  match strParam "command" params with
  | none => missing "command"
  | some command =>
    guarded debug state (.shellExec command) <|
      match w.output command (argsParam params) with
      | .ok (code, stdout, stderr) =>
        (done (.obj [("exit_code", intValue code), ("stdout", .string stdout),
          ("stderr", .string stderr)]), [.run command (argsParam params)])
      | .error e => (failed ("shell_exec failed: ".toList ++ e), [.run command (argsParam params)])

def hostEnvRead : Answer :=
  match strParam "name" params with
  | none => missing "name"
  | some name =>
    guarded debug state (.envRead name) <|
      match w.var name with
      | some val => (done (.string val), [.readVar name])
      | none => (done .null, [.readVar name])

def noKernel : Answer := (failed "No kernel handle available".toList, [])

def hostKvGet : Answer :=
  match strParam "key" params with
  | none => missing "key"
  | some key =>
    guarded debug state (.memoryRead key) <|
      match state.kernel with
      | none => noKernel
      | some kernel =>
        match kernel.memoryRecall key with
        | .ok (some val) => (done val, [.recall key])
        | .ok none => (done .null, [.recall key])
        | .error e => (failed e, [.recall key])

def hostKvSet : Answer :=
  match strParam "key" params with
  | none => missing "key"
  | some key =>
    match params.get "value".toList with
    | none => missing "value"
    | some value =>
      guarded debug state (.memoryWrite key) <|
        match state.kernel with
        | none => noKernel
        | some kernel =>
          match kernel.memoryStore key value with
          | .ok () => (done (.bool true), [.store key value])
          | .error e => (failed e, [.store key value])

def hostAgentSend : Answer :=
  match strParam "target" params with
  | none => missing "target"
  | some target =>
    match strParam "message" params with
    | none => missing "message"
    | some message =>
      guarded debug state (.agentMessage target) <|
        match state.kernel with
        | none => noKernel
        | some kernel =>
          match kernel.sendToAgent target message with
          | .ok response => (done (.string response), [.message target message])
          | .error e => (failed e, [.message target message])

def hostAgentSpawn : Answer :=
  guarded debug state .agentSpawn <|
    match strParam "manifest" params with
    | none => missing "manifest"
    | some manifestToml =>
      match state.kernel with
      | none => noKernel
      | some kernel =>
        match kernel.spawnAgentChecked manifestToml state.agentId state.capabilities with
        | .ok (id, name) =>
          (done (.obj [("id", .string id), ("name", .string name)]), [.spawn manifestToml])
        | .error e => (failed e, [.spawn manifestToml])

def dispatch (method : String) : Answer :=
  match method with
  | "time_now" => hostTimeNow w
  | "fs_read" => hostFsRead debug w state params
  | "fs_write" => hostFsWrite debug w state params
  | "fs_list" => hostFsList debug w state params
  | "net_fetch" => hostNetFetch debug w state params
  | "shell_exec" => hostShellExec debug w state params
  | "env_read" => hostEnvRead debug w state params
  | "kv_get" => hostKvGet debug state params
  | "kv_set" => hostKvSet debug state params
  | "agent_send" => hostAgentSend debug state params
  | "agent_spawn" => hostAgentSpawn debug state params
  | method => (failed ("Unknown host method: ".toList ++ method.toList), [])

end Code

section Purpose

def pathText (loc : Loc) : Str := '/' :: ['/'].intercalate loc

/-- The capability that covers what an effect touches. -/
def Effect.resource : Effect → Capability
  | .read loc => .fileRead (pathText loc)
  | .list loc => .fileRead (pathText loc)
  | .write loc _ => .fileWrite (pathText loc)
  | .connect target => .netConnect target.text
  | .run command _ => .shellExec command
  | .readVar name => .envRead name
  | .recall key => .memoryRead key
  | .store key _ => .memoryWrite key
  | .message target _ => .agentMessage target
  | .spawn _ => .agentSpawn

def Granted (capabilities : List Capability) (required : Capability) : Prop :=
  ∃ granted ∈ capabilities, capabilityMatches granted required = true

variable (debug : Capability → Str) (w : World) (kernel : Option KernelHandle) (agentId : Str)
  (method : String) (params : Value)

def Respects : Prop :=
  ∀ capabilities, ∀ e ∈ (dispatch debug w ⟨capabilities, kernel, agentId⟩ params method).2,
    Granted capabilities e.resource

def ReadsWhatItNames : Prop :=
  ∀ path loc, strParam "path" params = some path → safeResolvePath w.files path = .ok loc →
    Follows path (pathText loc)

def WritesWhatItNames : Prop :=
  ∀ path content place loc, strParam "path" params = some path →
    strParam "content" params = some content → safeResolveParent w.files path = .ok place →
      opened w.files place = .ok loc → Follows path (pathText loc)

def ConnectsToWhatItNames : Prop :=
  ∀ url, strParam "url" params = some url → isSsrfTarget w.dns url = .ok () →
    ∀ target ∈ w.connections (verb w params) url, Follows (extractHostFromUrl url) target.text

/-- The text that is checked names what is touched. -/
def NamesResource : Prop :=
  (method = "fs_read" ∨ method = "fs_list" → ReadsWhatItNames w params) ∧
    (method = "fs_write" → WritesWhatItNames w params) ∧
      (method = "net_fetch" → ConnectsToWhatItNames w params)

end Purpose

section Checks

variable {debug : Capability → Str} {w : World} {state : GuestState} {kernel : Option KernelHandle}
  {agentId : Str} {params : Value} {required : Capability} {act : Answer} {e : Effect}
  {capabilities : List Capability} {k : GlobKind} {p q : Str}

@[simp] theorem mem_guarded : e ∈ (guarded debug state required act).2 ↔
    Granted state.capabilities required ∧ e ∈ act.2 := by
  rw [guarded, checkCapability]
  have hany : state.capabilities.any (capabilityMatches · required) = true ↔
      Granted state.capabilities required := List.any_eq_true
  by_cases h : Granted state.capabilities required
  · simp [h, hany.mpr h]
  · simp [h, Bool.eq_false_iff.mpr (mt hany.mp h)]

theorem plain_matches {granted : Capability} (h : granted.globPart = none) (k : GlobKind) (s : Str) :
    capabilityMatches granted (k.capability s) = false := by
  cases granted <;> simp only [Capability.globPart, reduceCtorEq] at h <;> cases k <;> rfl

theorem granted_iff : Granted capabilities (k.capability p) ↔
    ∃ pattern, k.capability pattern ∈ capabilities ∧ globMatches pattern p = true := by
  constructor
  · rintro ⟨granted, hmem, hm⟩
    cases hg : granted.globPart with
    | none => rw [plain_matches hg] at hm; cases hm
    | some la =>
      obtain ⟨l, a⟩ := la
      obtain ⟨b, hb, hab⟩ := (capabilityMatches_glob_iff hg).mp hm
      rw [globPart_capability, Option.some.injEq, Prod.mk.injEq] at hb
      obtain ⟨rfl, rfl⟩ := hb
      exact ⟨a, globPart_eq_some.mp hg ▸ hmem, hab⟩
  · rintro ⟨pattern, hmem, hm⟩
    exact ⟨_, hmem, by simpa [capabilityMatches_capability] using hm⟩

/-- Every list of grants that covers the one text covers the other. -/
theorem granted_of_granted : (∀ capabilities, Granted capabilities (k.capability p) →
    Granted capabilities (k.capability q)) ↔ Follows p q := by
  rw [← follows_iff]
  constructor
  · intro h pattern hm
    obtain ⟨pattern', hmem, hq⟩ := granted_iff.mp
      (h [k.capability pattern] (granted_iff.mpr ⟨pattern, List.mem_singleton_self _, hm⟩))
    have hsame := congrArg Capability.globPart (List.mem_singleton.mp hmem)
    rw [globPart_capability, globPart_capability, Option.some.injEq, Prod.mk.injEq] at hsame
    exact hsame.2 ▸ hq
  · intro h capabilities hp
    obtain ⟨pattern, hmem, hm⟩ := granted_iff.mp hp
    exact granted_iff.mpr ⟨pattern, hmem, h pattern hm⟩

theorem mem_hostFsRead : e ∈ (hostFsRead debug w state params).2 ↔
    ∃ path loc, strParam "path" params = some path ∧ safeResolvePath w.files path = .ok loc ∧
      Granted state.capabilities (.fileRead path) ∧ e = .read loc := by
  rw [hostFsRead]
  cases strParam "path" params with
  | none => simp [missing]
  | some path =>
    cases hresolve : safeResolvePath w.files path with
    | error v => simp [hresolve]
    | ok loc => cases hread : w.readToString loc <;> simp [hresolve, hread]

theorem mem_hostFsList : e ∈ (hostFsList debug w state params).2 ↔
    ∃ path loc, strParam "path" params = some path ∧ safeResolvePath w.files path = .ok loc ∧
      Granted state.capabilities (.fileRead path) ∧ e = .list loc := by
  rw [hostFsList]
  cases strParam "path" params with
  | none => simp [missing]
  | some path =>
    cases hresolve : safeResolvePath w.files path with
    | error v => simp [hresolve]
    | ok loc => cases hread : w.readDir loc <;> simp [hresolve, hread]

theorem mem_hostFsWrite : e ∈ (hostFsWrite debug w state params).2 ↔
    ∃ path content place loc, strParam "path" params = some path ∧
      strParam "content" params = some content ∧ safeResolveParent w.files path = .ok place ∧
        opened w.files place = .ok loc ∧ Granted state.capabilities (.fileWrite path) ∧
          e = .write loc content := by
  rw [hostFsWrite]
  cases strParam "path" params with
  | none => simp [missing]
  | some path =>
    cases strParam "content" params with
    | none => simp [missing]
    | some content =>
      cases hresolve : safeResolveParent w.files path with
      | error v => simp [hresolve]
      | ok place =>
        cases hopened : opened w.files place with
        | error v => simp [hresolve, hopened]
        | ok loc => cases hwrite : w.write loc content <;> simp [hresolve, hopened, hwrite]

theorem mem_hostNetFetch : e ∈ (hostNetFetch debug w state params).2 ↔
    ∃ url, strParam "url" params = some url ∧ isSsrfTarget w.dns url = .ok () ∧
      Granted state.capabilities (.netConnect (extractHostFromUrl url)) ∧
        ∃ target ∈ w.connections (verb w params) url, e = .connect target := by
  rw [hostNetFetch]
  cases strParam "url" params with
  | none => simp [missing]
  | some url =>
    cases hssrf : isSsrfTarget w.dns url with
    | error v => simp [hssrf]
    | ok u =>
      cases hsend : w.send (verb w params) url with
      | error v => simp [hssrf, hsend, eq_comm]
      | ok response =>
        obtain ⟨status, text⟩ := response
        cases text <;> simp [hssrf, hsend, eq_comm]

theorem granted_hostShellExec (h : e ∈ (hostShellExec debug w state params).2) :
    Granted state.capabilities e.resource := by
  rw [hostShellExec] at h
  cases hcommand : strParam "command" params with
  | none => simp [hcommand, missing] at h
  | some command =>
    rw [hcommand, mem_guarded] at h
    obtain ⟨hgranted, hmem⟩ := h
    split at hmem <;> obtain rfl := List.mem_singleton.mp hmem <;> exact hgranted

theorem granted_hostEnvRead (h : e ∈ (hostEnvRead debug w state params).2) :
    Granted state.capabilities e.resource := by
  rw [hostEnvRead] at h
  cases hname : strParam "name" params with
  | none => simp [hname, missing] at h
  | some name =>
    rw [hname, mem_guarded] at h
    obtain ⟨hgranted, hmem⟩ := h
    split at hmem <;> obtain rfl := List.mem_singleton.mp hmem <;> exact hgranted

theorem granted_hostKvGet (h : e ∈ (hostKvGet debug state params).2) :
    Granted state.capabilities e.resource := by
  rw [hostKvGet] at h
  cases hkey : strParam "key" params with
  | none => simp [hkey, missing] at h
  | some key =>
    rw [hkey, mem_guarded] at h
    obtain ⟨hgranted, hmem⟩ := h
    split at hmem
    · simp [noKernel] at hmem
    · split at hmem <;> obtain rfl := List.mem_singleton.mp hmem <;> exact hgranted

theorem granted_hostKvSet (h : e ∈ (hostKvSet debug state params).2) :
    Granted state.capabilities e.resource := by
  rw [hostKvSet] at h
  cases hkey : strParam "key" params with
  | none => simp [hkey, missing] at h
  | some key =>
    cases hvalue : params.get "value".toList with
    | none =>
      rw [hkey, hvalue] at h
      simp [missing] at h
    | some value =>
      rw [hkey, hvalue, mem_guarded] at h
      obtain ⟨hgranted, hmem⟩ := h
      split at hmem
      · simp [noKernel] at hmem
      · split at hmem <;> obtain rfl := List.mem_singleton.mp hmem <;> exact hgranted

theorem granted_hostAgentSend (h : e ∈ (hostAgentSend debug state params).2) :
    Granted state.capabilities e.resource := by
  rw [hostAgentSend] at h
  cases htarget : strParam "target" params with
  | none => simp [htarget, missing] at h
  | some target =>
    cases hmessage : strParam "message" params with
    | none => simp [htarget, hmessage, missing] at h
    | some message =>
      rw [htarget, hmessage, mem_guarded] at h
      obtain ⟨hgranted, hmem⟩ := h
      split at hmem
      · simp [noKernel] at hmem
      · split at hmem <;> obtain rfl := List.mem_singleton.mp hmem <;> exact hgranted

theorem granted_hostAgentSpawn (h : e ∈ (hostAgentSpawn debug state params).2) :
    Granted state.capabilities e.resource := by
  rw [hostAgentSpawn, mem_guarded] at h
  obtain ⟨hgranted, hmem⟩ := h
  cases hmanifest : strParam "manifest" params with
  | none => simp [hmanifest, missing] at hmem
  | some manifest =>
    simp only [hmanifest] at hmem
    split at hmem
    · simp [noKernel] at hmem
    · split at hmem <;> obtain rfl := List.mem_singleton.mp hmem <;> exact hgranted

end Checks

section Agreement

variable {debug : Capability → Str} {w : World} {kernel : Option KernelHandle} {agentId : Str}
  {params : Value}

/-- A call that touches the place its path resolves to. -/
theorem respects_reads {method : String} {touch : Loc → Effect}
    (hresource : ∀ loc, (touch loc).resource = .fileRead (pathText loc))
    (hmem : ∀ capabilities e,
      e ∈ (dispatch debug w ⟨capabilities, kernel, agentId⟩ params method).2 ↔
        ∃ path loc, strParam "path" params = some path ∧ safeResolvePath w.files path = .ok loc ∧
          Granted capabilities (.fileRead path) ∧ e = touch loc) :
    Respects debug w kernel agentId method params ↔ ReadsWhatItNames w params := by
  constructor
  · intro h path loc hpath hloc
    apply (granted_of_granted (k := .fileRead)).mp
    intro capabilities hgranted
    have htouched := h capabilities (touch loc)
      ((hmem _ _).mpr ⟨path, loc, hpath, hloc, hgranted, rfl⟩)
    rwa [hresource] at htouched
  · intro h capabilities e he
    obtain ⟨path, loc, hpath, hloc, hgranted, rfl⟩ := (hmem _ _).mp he
    rw [hresource]
    exact (granted_of_granted (k := .fileRead)).mpr (h path loc hpath hloc) capabilities hgranted

theorem respects_fsRead : Respects debug w kernel agentId "fs_read" params ↔
    ReadsWhatItNames w params := respects_reads (fun _ => rfl) fun _ _ => mem_hostFsRead

theorem respects_fsList : Respects debug w kernel agentId "fs_list" params ↔
    ReadsWhatItNames w params := respects_reads (fun _ => rfl) fun _ _ => mem_hostFsList

theorem respects_fsWrite : Respects debug w kernel agentId "fs_write" params ↔
    WritesWhatItNames w params := by
  constructor
  · intro h path content place loc hpath hcontent hplace hloc
    apply (granted_of_granted (k := .fileWrite)).mp
    intro capabilities hgranted
    exact h capabilities (.write loc content)
      (mem_hostFsWrite.mpr ⟨path, content, place, loc, hpath, hcontent, hplace, hloc, hgranted, rfl⟩)
  · intro h capabilities e he
    obtain ⟨path, content, place, loc, hpath, hcontent, hplace, hloc, hgranted, rfl⟩ :=
      mem_hostFsWrite.mp he
    exact (granted_of_granted (k := .fileWrite)).mpr
      (h path content place loc hpath hcontent hplace hloc) capabilities hgranted

theorem respects_netFetch : Respects debug w kernel agentId "net_fetch" params ↔
    ConnectsToWhatItNames w params := by
  constructor
  · intro h url hurl hssrf target htarget
    apply (granted_of_granted (k := .netConnect)).mp
    intro capabilities hgranted
    exact h capabilities (.connect target)
      (mem_hostNetFetch.mpr ⟨url, hurl, hssrf, hgranted, target, htarget, rfl⟩)
  · intro h capabilities e he
    obtain ⟨url, hurl, hssrf, hgranted, target, htarget, rfl⟩ := mem_hostNetFetch.mp he
    exact (granted_of_granted (k := .netConnect)).mpr (h url hurl hssrf target htarget)
      capabilities hgranted

/-- A call touches only what the grants cover, whatever they are, exactly when the text that is
checked names what is touched. -/
theorem respects_iff (debug : Capability → Str) (w : World) (kernel : Option KernelHandle)
    (agentId : Str) (method : String) (params : Value) :
    Respects debug w kernel agentId method params ↔ NamesResource w method params := by
  by_cases hread : method = "fs_read"
  · subst hread
    simpa [NamesResource] using respects_fsRead
  by_cases hlist : method = "fs_list"
  · subst hlist
    simpa [NamesResource] using respects_fsList
  by_cases hwrite : method = "fs_write"
  · subst hwrite
    simpa [NamesResource] using respects_fsWrite
  by_cases hfetch : method = "net_fetch"
  · subst hfetch
    simpa [NamesResource] using respects_netFetch
  -- the other calls touch what they name
  simp only [NamesResource, hread, hlist, hwrite, hfetch, or_self, false_implies, and_self, iff_true]
  intro capabilities e he
  unfold dispatch at he
  split at he
  · simp [hostTimeNow] at he
  · exact absurd rfl hread
  · exact absurd rfl hwrite
  · exact absurd rfl hlist
  · exact absurd rfl hfetch
  · exact granted_hostShellExec he
  · exact granted_hostEnvRead he
  · exact granted_hostKvGet he
  · exact granted_hostKvSet he
  · exact granted_hostAgentSend he
  · exact granted_hostAgentSpawn he
  · cases he

/-- A directory `/w` with a link to the file `/secret`. -/
def linkedNode : Loc → Option Node := fun loc =>
  if loc = ["w".toList] then some .dir
  else if loc = ["secret".toList] then some .file
  else if loc = ["w".toList, "link".toList] then some (.link "/secret".toList)
  else none

def linkedWorld : World where
  files := ⟨⟨linkedNode, [], Dirs.nil⟩, 40, 40⟩
  readToString := fun _ => .ok "s".toList
  write := fun _ _ => .ok ()
  readDir := fun _ => .ok []
  dns := fun _ => none
  toAscii := some
  toUppercase := fun s => s.map Char.toUpper
  send := fun _ _ => .error []
  redirects := fun _ _ => []
  output := fun _ _ => .error []
  var := fun _ => none
  now := 0

theorem link_reads_secret : ¬ ∀ debug w kernel agentId method params,
    Respects debug w kernel agentId method params := by
  intro h
  obtain ⟨granted, hmem, hm⟩ := h (fun _ => []) linkedWorld none [] "fs_read"
    (.obj [("path", .string "/w/link".toList)]) [.fileRead "/w/*".toList] (.read ["secret".toList])
    (mem_hostFsRead.mpr ⟨"/w/link".toList, _, by decide, by decide,
      ⟨_, List.mem_singleton_self _, by decide⟩, rfl⟩)
  obtain rfl := List.mem_singleton.mp hmem
  exact absurd hm (by decide)

end Agreement

end Clawreform.Runtime.HostFunctions
