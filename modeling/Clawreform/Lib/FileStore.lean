import Clawreform.Lib.Program
import Clawreform.Lib.Utf8
import Mathlib.Logic.Function.Basic

namespace Clawreform.Lib.FileStore

open Clawreform.Lib.Text Clawreform.Lib.Utf8 Clawreform.Lib.Program

/-- Where a file is: the names that lead to it from the root. -/
abbrev Loc := List Str

inductive Node where
  | file (bytes : List UInt8)
  | dir
  deriving DecidableEq

/-- Files and directories, without links between them. What stands somewhere stands in a
directory. -/
structure Volume where
  node : Loc → Option Node
  root : node [] = some .dir
  above : ∀ loc name, node (loc ++ [name]) ≠ none → node loc = some .dir

section Volumes

def Volume.empty : Volume where
  node loc := if loc = [] then some .dir else none
  root := rfl
  above loc name h := by simp at h

def Volume.exists (v : Volume) (loc : Loc) : Bool := (v.node loc).isSome

def Volume.content (v : Volume) (loc : Loc) : Option (List UInt8) :=
  match v.node loc with
  | some (.file bytes) => some bytes
  | _ => none

def Volume.isFile (v : Volume) (loc : Loc) : Bool := (v.content loc).isSome

/-- Put something in a directory, where no directory stands. -/
def Volume.set (v : Volume) (loc : Loc) (n : Option Node) (hdir : v.node loc ≠ some .dir)
    (hup : v.node loc.dropLast = some .dir) : Volume where
  node := Function.update v.node loc n
  root := by
    rw [Function.update_of_ne]
    · exact v.root
    · rintro rfl
      exact hdir v.root
  above front name h := by
    by_cases hname : front ++ [name] = loc
    · subst hname
      rw [List.dropLast_concat] at hup
      rwa [Function.update_of_ne (by simp)]
    · rw [Function.update_of_ne hname] at h
      have hstands := v.above front name h
      rw [Function.update_of_ne]
      · exact hstands
      · rintro rfl
        exact hdir hstands

variable {v : Volume} {loc other : Loc} {n : Option Node} {bytes : List UInt8}

theorem Volume.content_eq_some : v.content loc = some bytes ↔ v.node loc = some (.file bytes) := by
  unfold content
  split
  · rename_i found hfound
    simp [hfound]
  · rename_i hnone
    simpa using hnone bytes

theorem Volume.content_congr {w : Volume} (h : v.node loc = w.node loc) :
    v.content loc = w.content loc := by
  rw [content, content, h]

theorem Volume.node_parent (hne : loc ≠ []) (h : v.node loc ≠ none) :
    v.node loc.dropLast = some .dir := by
  obtain rfl | ⟨front, name, rfl⟩ := List.eq_nil_or_concat' loc
  · exact absurd rfl hne
  · rw [List.dropLast_concat]
    exact v.above front name h

theorem Volume.node_of_prefix (h : v.node (loc ++ other) ≠ none) (hne : other ≠ []) :
    v.node loc = some .dir := by
  induction other using List.reverseRecOn with
  | nil => exact absurd rfl hne
  | append_singleton other name ih =>
    rw [← List.append_assoc] at h
    have hdir := v.above _ name h
    by_cases hnil : other = []
    · rwa [hnil, List.append_nil] at hdir
    · exact ih (by simp [hdir]) hnil

theorem Volume.isFile_ne_dir (v : Volume) (h : v.isFile loc) : v.node loc ≠ some .dir := by
  intro hdir
  simp [isFile, content, hdir] at h

theorem Volume.isFile_parent (v : Volume) (h : v.isFile loc) :
    v.node loc.dropLast = some .dir := by
  obtain ⟨bytes, hbytes⟩ := Option.isSome_iff_exists.mp h
  rw [content_eq_some] at hbytes
  apply node_parent _ (by simp [hbytes])
  rintro rfl
  simp [v.root] at hbytes

variable {hdir : v.node loc ≠ some .dir} {hup : v.node loc.dropLast = some .dir}

@[simp] theorem Volume.node_set_self : (v.set loc n hdir hup).node loc = n :=
  Function.update_self _ _ _

theorem Volume.node_set_of_ne (h : other ≠ loc) :
    (v.set loc n hdir hup).node other = v.node other :=
  Function.update_of_ne h _ _

theorem Volume.content_set_of_ne (h : other ≠ loc) :
    (v.set loc n hdir hup).content other = v.content other :=
  content_congr (node_set_of_ne h)

/-- Making a directory does not show among the files. -/
theorem Volume.content_set_dir (hnone : v.node loc = none) :
    (v.set loc (some .dir) hdir hup).content other = v.content other := by
  by_cases h : other = loc
  · subst h
    simp [content, hnone]
  · exact content_set_of_ne h

end Volumes

section Calls

inductive IoError where
  | notFound
  | isADirectory
  | alreadyExists
  | invalidData
  | other
  deriving DecidableEq

/-- A write that fails can leave anything behind. -/
inductive WriteOutcome where
  | done
  | failed (left : Option (List UInt8))
  deriving DecidableEq

/-- What fails of the accesses that are made together, for reasons of the system's own. -/
structure Faults where
  blocked : Loc → Bool
  unreadable : Bool
  write : WriteOutcome
  stuck : Bool

def Faults.free : Faults := ⟨fun _ => false, false, .done, false⟩

variable (faults : Faults)

def makeDir (loc : Loc) : EStateM IoError Volume Unit := fun v =>
  if h : v.node loc ≠ some .dir ∧ v.node loc.dropLast = some .dir then
    if (v.node loc).isSome then .error .alreadyExists v
    else if faults.blocked loc then .error .other v
    else .ok () (v.set loc (some .dir) h.1 h.2)
  else if v.node loc = some .dir then .ok () v
  else .error .notFound v

/-- `create_dir_all`: the directories on the way to a place, and the place. -/
def createDirAll (loc : Loc) : EStateM IoError Volume Unit := loc.inits.forM (makeDir faults)

def writeFile (loc : Loc) (bytes : List UInt8) : EStateM IoError Volume Unit := fun v =>
  if h : v.node loc ≠ some .dir ∧ v.node loc.dropLast = some .dir then
    match faults.write with
    | .done => .ok () (v.set loc (some (.file bytes)) h.1 h.2)
    | .failed none => .error .other v
    | .failed (some left) => .error .other (v.set loc (some (.file left)) h.1 h.2)
  else if v.node loc = some .dir then .error .isADirectory v
  else .error .notFound v

def readFile (loc : Loc) : EStateM IoError Volume (List UInt8) := fun v =>
  match v.node loc with
  | none => .error .notFound v
  | some .dir => .error .isADirectory v
  | some (.file bytes) => if faults.unreadable then .error .other v else .ok bytes v

def fromUtf8 (bytes : List UInt8) : Option Str :=
  let s := fromUtf8Lossy bytes
  if encode s = bytes then some s else none

@[simp] theorem fromUtf8_encode (s : Str) : fromUtf8 (encode s) = some s := by
  simp [fromUtf8]

def readToString (loc : Loc) : EStateM IoError Volume Str := do
  match fromUtf8 (← readFile faults loc) with
  | none => throw .invalidData
  | some s => pure s

/-- `fs::copy` -/
def copy (src dst : Loc) : EStateM IoError Volume Unit := do
  writeFile faults dst (← readFile faults src)

def removeFile (loc : Loc) : EStateM IoError Volume Unit := fun v =>
  if h : v.isFile loc then
    if faults.stuck then .error .other v
    else .ok () (v.set loc none (v.isFile_ne_dir h) (v.isFile_parent h))
  else if v.node loc = some .dir then .error .isADirectory v
  else .error .notFound v

end Calls

section Rules

variable {faults : Faults} {loc src dst : Loc} {bytes : List UInt8} {inv pre : Volume → Prop}

theorem triple_makeDir
    (hset : ∀ v hdir hup, inv v → v.node loc = none → inv (v.set loc (some .dir) hdir hup)) :
    Triple inv (makeDir faults loc) (fun _ v => inv v ∧ v.node loc = some .dir) (fun _ => inv) := by
  refine ⟨fun v hv => ?_⟩
  by_cases h : v.node loc ≠ some .dir ∧ v.node loc.dropLast = some .dir
  · rw [makeDir, dif_pos h]
    by_cases hsome : (v.node loc).isSome
    · rw [if_pos hsome]
      exact hv
    · rw [if_neg hsome]
      by_cases hblocked : faults.blocked loc
      · rw [if_pos hblocked]
        exact hv
      · rw [if_neg hblocked]
        exact ⟨hset v h.1 h.2 hv (by simpa using hsome), Volume.node_set_self⟩
  · rw [makeDir, dif_neg h]
    by_cases hdir : v.node loc = some .dir
    · rw [if_pos hdir]
      exact ⟨hv, hdir⟩
    · rw [if_neg hdir]
      exact hv

/-- What making a directory on the way keeps, making them all keeps. -/
theorem triple_createDirAll {I : Volume → Prop}
    (hset : ∀ v l hdir hup, I v → l <+: loc → v.node l = none → I (v.set l (some .dir) hdir hup)) :
    Triple I (createDirAll faults loc) (fun _ => I) (fun _ => I) := by
  apply triple_forM (I := fun _ => I)
  intro made l hl
  have hmade : l <+: loc := (List.mem_inits _ _).mp (hl.subset (by simp))
  apply (triple_makeDir fun v hdir hup hv hnone => hset v l hdir hup hv hmade hnone).weaken
  · exact fun _ hv => hv
  · exact fun _ _ hv => hv.1
  · exact fun _ _ hv => hv

/-- There is nothing to make where the directory stands. -/
theorem triple_createDirAll_of_dir (hdir : ∀ v, pre v → v.node loc = some .dir) :
    Triple pre (createDirAll faults loc) (fun _ => pre) (fun _ _ => False) := by
  apply triple_forM (I := fun _ => pre)
  intro made l hl
  refine ⟨fun v hv => ?_⟩
  have hmade : l <+: loc := (List.mem_inits _ _).mp (hl.subset (by simp))
  have hstands : v.node l = some .dir := by
    obtain ⟨rest, rfl⟩ := hmade
    by_cases hrest : rest = []
    · simpa [hrest] using hdir v hv
    · exact v.node_of_prefix (by simp [hdir v hv]) hrest
  rw [makeDir, dif_neg (fun h => h.1 hstands), if_pos hstands]
  exact hv

theorem triple_writeFile {post : Unit → Volume → Prop} {exit : IoError → Volume → Prop}
    (hdone : ∀ v hdir hup, pre v → post () (v.set loc (some (.file bytes)) hdir hup))
    (hleft : ∀ v left hdir hup, pre v → faults.write = .failed (some left) →
      exit .other (v.set loc (some (.file left)) hdir hup))
    (hfail : ∀ v e, pre v → (faults.write = .done →
      v.node loc = some .dir ∨ v.node loc.dropLast ≠ some .dir) → exit e v) :
    Triple pre (writeFile faults loc bytes) post exit := by
  refine ⟨fun v hv => ?_⟩
  by_cases h : v.node loc ≠ some .dir ∧ v.node loc.dropLast = some .dir
  · rw [writeFile, dif_pos h]
    cases hwrite : faults.write with
    | done => exact hdone v h.1 h.2 hv
    | failed left =>
      cases left with
      | none => exact hfail v _ hv (by simp [hwrite])
      | some left => exact hleft v left h.1 h.2 hv hwrite
  · rw [writeFile, dif_neg h]
    by_cases hdir : v.node loc = some .dir
    · rw [if_pos hdir]
      exact hfail v _ hv fun _ => Or.inl hdir
    · rw [if_neg hdir]
      exact hfail v _ hv fun _ => Or.inr fun hup => h ⟨hdir, hup⟩

theorem triple_readFile {exit : IoError → Volume → Prop}
    (hfail : ∀ v e, pre v → (faults.unreadable = false → ∀ bytes, v.node loc ≠ some (.file bytes)) →
      exit e v) :
    Triple pre (readFile faults loc) (fun bytes v => pre v ∧ v.node loc = some (.file bytes))
      exit := by
  refine ⟨fun v hv => ?_⟩
  unfold readFile
  cases hnode : v.node loc with
  | none => exact hfail v _ hv (by simp [hnode])
  | some n =>
    cases n with
    | dir => exact hfail v _ hv (by simp [hnode])
    | file bytes =>
      by_cases hread : faults.unreadable
      · simpa [hread] using hfail v .other hv (by simp [hread])
      · simpa [hread] using ⟨hv, hnode⟩

theorem triple_readToString {exit : IoError → Volume → Prop}
    (hfail : ∀ v e, pre v → (faults.unreadable = false →
      ∀ s, v.node loc ≠ some (.file (encode s))) → exit e v) :
    Triple pre (readToString faults loc)
      (fun s v => pre v ∧ ∃ bytes, v.node loc = some (.file bytes) ∧ fromUtf8 bytes = some s)
      exit := by
  apply triple_bind (triple_readFile fun v e hv h => hfail v e hv fun hread s => h hread _)
  intro bytes
  cases hs : fromUtf8 bytes with
  | none =>
    apply triple_throw
    rintro v ⟨hv, hnode⟩
    apply hfail v _ hv
    intro _ s hfile
    rw [hnode] at hfile
    cases hfile
    simp at hs
  | some s => exact triple_pure fun v hv => ⟨hv.1, bytes, hv.2, hs⟩

theorem triple_removeFile {post : Unit → Volume → Prop} {exit : IoError → Volume → Prop}
    (hdone : ∀ v hdir hup, pre v → post () (v.set loc none hdir hup))
    (hfail : ∀ v e, pre v → (faults.stuck = false → ∀ bytes, v.node loc ≠ some (.file bytes)) →
      exit e v) :
    Triple pre (removeFile faults loc) post exit := by
  refine ⟨fun v hv => ?_⟩
  by_cases hfile : v.isFile loc
  · rw [removeFile, dif_pos hfile]
    by_cases hstuck : faults.stuck
    · rw [if_pos hstuck]
      exact hfail v _ hv (by simp [hstuck])
    · rw [if_neg hstuck]
      exact hdone v _ _ hv
  · rw [removeFile, dif_neg hfile]
    have hnot : ∀ bytes, v.node loc ≠ some (.file bytes) := by
      intro bytes hnode
      exact hfile (by simp [Volume.isFile, Volume.content_eq_some.mpr hnode])
    by_cases hdir : v.node loc = some .dir
    · rw [if_pos hdir]
      exact hfail v _ hv fun _ => hnot
    · rw [if_neg hdir]
      exact hfail v _ hv fun _ => hnot

end Rules

end Clawreform.Lib.FileStore
