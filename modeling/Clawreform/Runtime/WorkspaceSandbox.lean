import Clawreform.Lib.FileWalk

namespace Clawreform.Runtime.WorkspaceSandbox

open Clawreform.Lib.Text Clawreform.Lib.PathRouter Clawreform.Lib.FileWalk

section Paths

inductive Component where
  | rootDir
  | curDir
  | parentDir
  | normal (name : Str)
  deriving DecidableEq

def isAbsolute (path : Str) : Bool := path.head? = some '/'

/-- The components of a path. Repeated slashes and dots are left out, but for a dot at the
beginning. -/
def components (path : Str) : List Component :=
  let names := (segments path).filter fun name => name ≠ [] ∧ name ≠ ".".toList
  let start :=
    if isAbsolute path then [.rootDir]
    else if (segments path).head? = some ".".toList then [.curDir]
    else []
  start ++ names.map fun name => if name = "..".toList then .parentDir else .normal name

def Component.text : Component → Str
  | .rootDir => []
  | .curDir => ".".toList
  | .parentDir => "..".toList
  | .normal name => name

def asPath (parts : List Component) : Str :=
  if parts = [.rootDir] then "/".toList else ['/'].intercalate (parts.map Component.text)

def parent (path : Str) : Option Str :=
  match (components path).getLast? with
  | none => none
  | some .rootDir => none
  | some _ => some (asPath (components path).dropLast)

def fileName (path : Str) : Option Str :=
  match (components path).getLast? with
  | some (.normal name) => some name
  | _ => none

def join (root path : Str) : Str :=
  if isAbsolute path ∨ root = [] then path
  else if root.getLast? = some '/' then root ++ path
  else root ++ '/' :: path

def candidateOf (userPath workspaceRoot : Str) : Str :=
  if isAbsolute userPath then userPath else join workspaceRoot userPath

end Paths

section Code

def ioText : IoError → Str
  | .notFound => "No such file or directory (os error 2)".toList
  | .notADirectory => "Not a directory (os error 20)".toList
  | .tooManyLinks => "Too many levels of symbolic links (os error 40)".toList

/-- The file system, and how many symbolic links the system and `canonicalize` go through. -/
structure Files where
  tree : FileTree
  systemLinks : Nat
  canonicalizeLinks : Nat

variable (fs : Files)

def Files.exists (path : Str) : Bool :=
  match fs.tree.follow fs.systemLinks path with
  | .found _ => true
  | _ => false

def Files.canonicalize (path : Str) : Except IoError Loc :=
  match fs.tree.follow fs.canonicalizeLinks path with
  | .found loc => .ok loc
  | .missing _ => .error .notFound
  | .failed e => .error e

def accessDenied (userPath : Str) : Str :=
  "Access denied: path '".toList ++ userPath ++ "' resolves outside workspace. ".toList ++
    "If you have an MCP filesystem server configured, use the ".toList ++
    "mcp_filesystem_* tools (e.g. mcp_filesystem_read_file, ".toList ++
    "mcp_filesystem_list_directory) to access files outside ".toList ++
    "the workspace.".toList

/-- Where a path is that does not exist yet: its last name in the directory before it. -/
def newFilePlace (candidate : Str) : Except Str Loc :=
  match parent candidate with
  | none => .error "Invalid path: no parent directory".toList
  | some dir =>
    match fileName candidate with
    | none => .error "Invalid path: no filename".toList
    | some filename =>
      match fs.canonicalize dir with
      | .error e => .error ("Failed to resolve parent directory: ".toList ++ ioText e)
      | .ok canonParent => .ok (canonParent ++ [filename])

def canonCandidate (candidate : Str) : Except Str Loc :=
  if fs.exists candidate then
    (fs.canonicalize candidate).mapError fun e => "Failed to resolve path: ".toList ++ ioText e
  else newFilePlace fs candidate

def resolveSandboxPath (userPath workspaceRoot : Str) : Except Str Loc :=
  if .parentDir ∈ components userPath then
    .error "Path traversal denied: '..' components are forbidden".toList
  else
    match fs.canonicalize workspaceRoot with
    | .error e => .error ("Failed to resolve workspace root: ".toList ++ ioText e)
    | .ok canonRoot =>
      match canonCandidate fs (candidateOf userPath workspaceRoot) with
      | .error e => .error e
      | .ok loc => if canonRoot <+: loc then .ok loc else .error (accessDenied userPath)

end Code

section Opening

variable (fs : Files)

/-- What opening the file at a place reads, or writes and creates. -/
def Files.touches (place : Loc) : Option Loc :=
  match walk fs.tree.node fs.systemLinks [] place with
  | .found loc => some loc
  | .missing loc => some loc
  | .failed _ => none

def Confined (userPath workspaceRoot : Str) : Prop :=
  ∀ p canonRoot loc, resolveSandboxPath fs userPath workspaceRoot = .ok p →
    fs.canonicalize workspaceRoot = .ok canonRoot → fs.touches p = some loc → canonRoot <+: loc

/-- The path does not exist as it stands, but what its last name stands for in the directory
before it is a symbolic link that leads out of the workspace. -/
def LinkLeadsOut (userPath workspaceRoot : Str) : Prop :=
  ∃ canonRoot place target loc, .parentDir ∉ components userPath ∧
    fs.canonicalize workspaceRoot = .ok canonRoot ∧
      fs.exists (candidateOf userPath workspaceRoot) = false ∧
        newFilePlace fs (candidateOf userPath workspaceRoot) = .ok place ∧ canonRoot <+: place ∧
          fs.tree.node place = some (.link target) ∧ fs.touches place = some loc ∧
            ¬ canonRoot <+: loc

variable {fs} {path userPath workspaceRoot filename : Str} {loc place canonRoot : Loc}

theorem real_of_canonicalize (h : fs.canonicalize path = .ok loc) : Real fs.tree.node loc := by
  rw [Files.canonicalize] at h
  split at h
  · rename_i found hfound
    cases h
    exact FileTree.follow_found hfound
  · cases h
  · cases h

/-- A place without symbolic links on its way is the place that opening it touches. -/
theorem touches_real (h : Real fs.tree.node loc) : fs.touches loc = some loc := by
  rw [Files.touches, walk_real h]

theorem isPlain_fileName (h : fileName path = some filename) : isPlain filename := by
  rw [fileName] at h
  split at h
  · rename_i name hlast
    cases h
    have hmem := List.mem_of_getLast? hlast
    simp only [components, List.mem_append, List.mem_map] at hmem
    obtain hstart | ⟨name, hname, hnormal⟩ := hmem
    · split at hstart
      · simp at hstart
      · split at hstart <;> simp at hstart
    · split at hnormal
      · cases hnormal
      · rename_i hup
        cases hnormal
        have hkept := (List.mem_filter.mp hname).2
        rw [decide_eq_true_eq] at hkept
        rw [isPlain, decide_eq_true_eq]
        exact ⟨hkept.1, hkept.2, hup⟩
  · cases h

theorem newFilePlace_eq_ok (h : newFilePlace fs path = .ok place) :
    ∃ dir filename, place = dir ++ [filename] ∧ Real fs.tree.node dir ∧ isPlain filename := by
  rw [newFilePlace] at h
  split at h
  · cases h
  · split at h
    · cases h
    · rename_i filename hfilename
      split at h
      · cases h
      · rename_i canonParent hparent
        cases h
        exact ⟨canonParent, filename, rfl, real_of_canonicalize hparent, isPlain_fileName hfilename⟩

/-- Opening a new file touches its place, unless a symbolic link stands there. -/
theorem touches_newFile (h : newFilePlace fs path = .ok place)
    (hnot : ∀ target, fs.tree.node place ≠ some (.link target)) (htouches : fs.touches place = some loc) :
    loc = place := by
  obtain ⟨dir, filename, rfl, hreal, hname⟩ := newFilePlace_eq_ok h
  rw [Files.touches] at htouches
  obtain hdirs | ⟨front, name, rfl, hfront, hplain, hfile⟩ := hreal
  · rw [walk_entry hdirs, walk, advance_entry hname] at htouches
    cases hnode : fs.tree.node (dir ++ [filename]) with
    | none => simpa [hnode, eq_comm] using htouches
    | some n =>
      cases n with
      | file => simpa [hnode, eq_comm] using htouches
      | dir => simpa [hnode, eq_comm] using htouches
      | link target => exact absurd hnode (hnot target)
  · rw [List.append_assoc, walk_entry hfront, walk, List.singleton_append, advance,
      if_neg (not_skip hplain), if_neg (not_up hplain), hfile] at htouches
    simp at htouches

theorem resolveSandboxPath_eq_ok (h : resolveSandboxPath fs userPath workspaceRoot = .ok loc) :
    .parentDir ∉ components userPath ∧ ∃ canonRoot,
      fs.canonicalize workspaceRoot = .ok canonRoot ∧
        canonCandidate fs (candidateOf userPath workspaceRoot) = .ok loc ∧ canonRoot <+: loc := by
  rw [resolveSandboxPath] at h
  split at h
  · cases h
  · rename_i hparent
    refine ⟨hparent, ?_⟩
    split at h
    · cases h
    · rename_i canonRoot hroot
      split at h
      · cases h
      · rename_i found hcandidate
        split at h
        · rename_i hinside
          cases h
          exact ⟨canonRoot, hroot, hcandidate, hinside⟩
        · cases h

theorem resolveSandboxPath_new (hparent : .parentDir ∉ components userPath)
    (hroot : fs.canonicalize workspaceRoot = .ok canonRoot)
    (hexists : fs.exists (candidateOf userPath workspaceRoot) = false)
    (hplace : newFilePlace fs (candidateOf userPath workspaceRoot) = .ok place)
    (hinside : canonRoot <+: place) :
    resolveSandboxPath fs userPath workspaceRoot = .ok place := by
  rw [resolveSandboxPath, if_neg hparent]
  simp [hroot, canonCandidate, hexists, hplace, hinside]

/-- What resolves is confined to the workspace, but for a symbolic link at the place of a
file that does not exist. -/
theorem confined_iff (fs : Files) (userPath workspaceRoot : Str) :
    Confined fs userPath workspaceRoot ↔ ¬ LinkLeadsOut fs userPath workspaceRoot := by
  constructor
  · rintro h ⟨canonRoot, place, target, loc, hparent, hroot, hexists, hplace, hinside, -, htouches,
      hout⟩
    have hresolve := resolveSandboxPath_new hparent hroot hexists hplace hinside
    exact hout (h place canonRoot loc hresolve hroot htouches)
  · intro h p canonRoot loc hresolve hroot htouches
    obtain ⟨hparent, canonRoot', hroot', hcandidate, hinside⟩ := resolveSandboxPath_eq_ok hresolve
    rw [hroot] at hroot'
    cases hroot'
    rw [canonCandidate] at hcandidate
    split at hcandidate
    · cases hcanon : fs.canonicalize (candidateOf userPath workspaceRoot) with
      | error e => rw [hcanon] at hcandidate; cases hcandidate
      | ok found =>
        rw [hcanon] at hcandidate
        cases hcandidate
        rw [touches_real (real_of_canonicalize hcanon)] at htouches
        cases htouches
        exact hinside
    · rename_i hexists
      by_contra hout
      by_cases hlink : ∃ target, fs.tree.node p = some (.link target)
      · obtain ⟨target, hlink⟩ := hlink
        exact h ⟨canonRoot, p, target, loc, hparent, hroot, by simpa using hexists, hcandidate,
          hinside, hlink, htouches, hout⟩
      · rw [touches_newFile hcandidate (fun target ht => hlink ⟨target, ht⟩) htouches] at hout
        exact hout hinside

/-- A workspace `/w` with a link to a file outside that does not exist. -/
def danglingNode : Loc → Option Node := fun loc =>
  if loc = ["w".toList] ∨ loc = ["out".toList] then some .dir
  else if loc = ["w".toList, "link".toList] then some (.link "/out/new".toList)
  else none

def danglingFiles : Files := ⟨⟨danglingNode, [], Dirs.nil⟩, 40, 40⟩

theorem dangling_link_escapes : ¬ ∀ fs userPath workspaceRoot,
    Confined fs userPath workspaceRoot := by
  intro h
  have hout := h danglingFiles "link".toList "/w".toList ["w".toList, "link".toList] ["w".toList]
    ["out".toList, "new".toList] (by decide) (by decide) (by decide)
  exact absurd hout (by decide)

end Opening

end Clawreform.Runtime.WorkspaceSandbox
