import Clawreform.Runtime.WorkspaceSandbox

namespace Clawreform.Runtime.DockerSandbox

open Clawreform.Lib.Text Clawreform.Lib.FileWalk Clawreform.Runtime.WorkspaceSandbox

section Code

/-- Blocked whatever is configured. -/
def blockedMountPaths : List Str :=
  ["/etc".toList, "/proc".toList, "/sys".toList, "/dev".toList, "/var/run/docker.sock".toList,
    "/root".toList, "/boot".toList]

def locText (loc : Loc) : Str := if loc = [] then ['/'] else loc.flatMap ('/' :: ·)

/-- The first of the paths which a text starts with. -/
def blockedBy (paths : List Str) (text : Str) : Option Str := paths.find? (·.isPrefixOf text)

variable (fs : Files)

def validateBindMount (path : Str) (blocked : List Str) : Except Str Unit :=
  if ¬ isAbsolute path ∧ path.head? ≠ some '/' then
    .error ("Bind mount path must be absolute: ".toList ++ path)
  else if .parentDir ∈ components path then
    .error ("Bind mount path contains '..': ".toList ++ path)
  else
    match blockedBy blockedMountPaths path with
    | some blockedPath =>
      .error ("Bind mount to '".toList ++ blockedPath ++ "' is blocked for security".toList)
    | none =>
      match blockedBy blocked path with
      | some bp =>
        .error ("Bind mount to '".toList ++ bp ++ "' is blocked by configuration".toList)
      | none =>
        if fs.exists path then
          match fs.canonicalize path with
          | .ok canonical =>
            match blockedBy blockedMountPaths (locText canonical) with
            | some _ =>
              .error ("Bind mount resolves to blocked path via symlink: ".toList ++ path ++
                " → ".toList ++ locText canonical)
            | none => .ok ()
          | .error _ => .ok ()
        else .ok ()

end Code

section Reaching

variable (fs : Files)

/-- Where a path that is there is mounted from. -/
def mountOf (path : Str) : Option Loc :=
  if fs.exists path then (fs.canonicalize path).toOption else none

/-- No file below the mount lies in or below a blocked path. -/
def KeepsOut (path : Str) (blocked : List Str) : Prop :=
  ∀ mount, mountOf fs path = some mount → ∀ b ∈ blockedMountPaths ++ blocked, ∀ place,
    fs.canonicalize b = .ok place → ∀ file, Real fs.tree.node file → mount <+: file →
      ¬ place <+: file

/-- The mount is above no blocked path. It is in none which the comparisons of texts miss: the
default ones are compared with where the path leads, the configured ones with the path. -/
structure Clear (path : Str) (blocked : List Str) : Prop where
  above : ∀ mount, mountOf fs path = some mount → ∀ b ∈ blockedMountPaths ++ blocked, ∀ place,
    fs.canonicalize b = .ok place → ¬ mount <+: place
  linked : ∀ mount, mountOf fs path = some mount → ∀ b ∈ blockedMountPaths, ∀ place,
    fs.canonicalize b = .ok place → locText place ≠ b → ¬ place <+: mount
  renamed : ∀ mount, mountOf fs path = some mount → ∀ b ∈ blocked, ∀ place,
    fs.canonicalize b = .ok place → locText mount ≠ path ∨ locText place ≠ b → ¬ place <+: mount

variable {fs} {path text : Str} {blocked paths : List Str} {mount place loc loc' : Loc}

theorem blockedBy_none (h : blockedBy paths text = none) : ∀ b ∈ paths, ¬ b <+: text := by
  intro b hb hpre
  exact List.find?_eq_none.mp h b hb (List.isPrefixOf_iff_prefix.mpr hpre)

theorem locText_eq_flatMap (h : loc ≠ []) : locText loc = loc.flatMap ('/' :: ·) := if_neg h

/-- What lies in a place has a text that starts with the text of the place. -/
theorem locText_prefix (h : loc <+: loc') : locText loc <+: locText loc' := by
  obtain ⟨rest, rfl⟩ := h
  cases loc with
  | nil =>
    cases rest with
    | nil => exact List.prefix_rfl
    | cons name rest => exact ⟨name ++ rest.flatMap ('/' :: ·), rfl⟩
  | cons name front =>
    rw [locText_eq_flatMap (List.cons_ne_nil _ _), locText_eq_flatMap (by simp),
      List.flatMap_append]
    exact List.prefix_append _ _

theorem mountOf_eq_some :
    mountOf fs path = some mount ↔ fs.exists path = true ∧ fs.canonicalize path = .ok mount := by
  rw [mountOf]
  split
  · rename_i hexists
    cases fs.canonicalize path with
    | ok loc => simp [Except.toOption, hexists]
    | error e => simp [Except.toOption]
  · rename_i hexists
    simp [hexists]

theorem validateBindMount_ok (h : validateBindMount fs path blocked = .ok ()) :
    (∀ b ∈ blocked, ¬ b <+: path) ∧
      ∀ mount, mountOf fs path = some mount → ∀ b ∈ blockedMountPaths, ¬ b <+: locText mount := by
  rw [validateBindMount] at h
  split at h
  · cases h
  split at h
  · cases h
  split at h
  · cases h
  split at h
  · cases h
  rename_i hconfigured
  refine ⟨blockedBy_none hconfigured, fun mount hmount => ?_⟩
  obtain ⟨hexists, hcanonical⟩ := mountOf_eq_some.mp hmount
  rw [if_pos hexists, hcanonical] at h
  dsimp only at h
  split at h
  · cases h
  · rename_i hdefault
    exact blockedBy_none hdefault

/-- No file is reached exactly when neither place is in the other. -/
theorem unreached_iff (hmount : Real fs.tree.node mount) (hplace : Real fs.tree.node place) :
    (∀ file, Real fs.tree.node file → mount <+: file → ¬ place <+: file) ↔
      ¬ mount <+: place ∧ ¬ place <+: mount := by
  constructor
  · intro h
    exact ⟨fun hup => h place hplace hup List.prefix_rfl,
      fun hin => h mount hmount List.prefix_rfl hin⟩
  · rintro ⟨hup, hin⟩ file - hfile hplace
    obtain hle | hle := List.prefix_or_prefix_of_prefix hfile hplace
    · exact hup hle
    · exact hin hle

theorem keepsOut_iff : KeepsOut fs path blocked ↔
    ∀ mount, mountOf fs path = some mount → ∀ b ∈ blockedMountPaths ++ blocked, ∀ place,
      fs.canonicalize b = .ok place → ¬ mount <+: place ∧ ¬ place <+: mount := by
  rw [KeepsOut]
  refine forall₂_congr fun mount hmount => forall₂_congr fun b _ => forall₂_congr fun place hb => ?_
  exact unreached_iff (real_of_canonicalize (mountOf_eq_some.mp hmount).2) (real_of_canonicalize hb)

theorem validateBindMount_sound_iff (h : validateBindMount fs path blocked = .ok ()) :
    KeepsOut fs path blocked ↔ Clear fs path blocked := by
  obtain ⟨hconfigured, hdefault⟩ := validateBindMount_ok h
  rw [keepsOut_iff]
  constructor
  · intro hout
    exact ⟨fun mount hmount b hb place hplace => (hout mount hmount b hb place hplace).1,
      fun mount hmount b hb place hplace _ =>
        (hout mount hmount b (List.mem_append_left _ hb) place hplace).2,
      fun mount hmount b hb place hplace _ =>
        (hout mount hmount b (List.mem_append_right _ hb) place hplace).2⟩
  · intro hclear mount hmount b hb place hplace
    refine ⟨hclear.above mount hmount b hb place hplace, fun hin => ?_⟩
    have htext := locText_prefix hin
    obtain hb | hb := List.mem_append.mp hb
    · by_cases hsame : locText place = b
      · rw [hsame] at htext
        exact hdefault mount hmount b hb htext
      · exact hclear.linked mount hmount b hb place hplace hsame hin
    · by_cases hsame : locText mount = path ∧ locText place = b
      · rw [hsame.1, hsame.2] at htext
        exact hconfigured b hb htext
      · exact hclear.renamed mount hmount b hb place hplace (not_and_or.mp hsame) hin

def hostFiles : Files :=
  ⟨⟨fun loc => if loc = ["etc".toList] ∨ loc = ["home".toList] then some .dir else none, [],
    Dirs.nil⟩, 40, 40⟩

theorem validateBindMount_sound_iff_home :
    validateBindMount hostFiles "/home".toList ["/data".toList] = .ok () ∧
      mountOf hostFiles "/home".toList = some ["home".toList] ∧
      (KeepsOut hostFiles "/home".toList ["/data".toList] ↔
        Clear hostFiles "/home".toList ["/data".toList]) :=
  ⟨by decide, by decide, validateBindMount_sound_iff (by decide)⟩

/-- The root is above everything that is blocked. -/
theorem root_not_kept_out : ¬ ∀ fs path blocked,
    validateBindMount fs path blocked = .ok () → KeepsOut fs path blocked := by
  intro hall
  have hout := keepsOut_iff.mp (hall hostFiles "/".toList [] (by decide)) [] (by decide)
    "/etc".toList (by decide) ["etc".toList] (by decide)
  exact hout.1 List.nil_prefix

end Reaching

end Clawreform.Runtime.DockerSandbox
