import Clawreform.Lib.PathRouter

namespace Clawreform.Lib.FileWalk

open Clawreform.Lib.Text Clawreform.Lib.PathRouter

/-- Where a file is: the names that lead to it from the root. -/
abbrev Loc := List Str

inductive Node where
  | file
  | dir
  | link (target : Str)
  deriving DecidableEq

inductive IoError where
  | notFound
  | notADirectory
  | tooManyLinks
  deriving DecidableEq

/-- Where a path leads: to a file or directory, to a free place in a directory, or nowhere. -/
inductive Walked where
  | found (loc : Loc)
  | missing (loc : Loc)
  | failed (e : IoError)
  deriving DecidableEq

/-- A walk as far as the first symbolic link on its way. -/
inductive Stretch where
  | done (w : Walked)
  | link (dir : Loc) (target : Str) (rest : List Str)
  deriving DecidableEq

def isPlain (name : Str) : Bool := name ≠ [] ∧ name ≠ ".".toList ∧ name ≠ "..".toList

/-- All the directories on the way to a place, and the place itself, are directories. -/
def Dirs (node : Loc → Option Node) (loc : Loc) : Prop :=
  (∀ name ∈ loc, isPlain name) ∧ ∀ pre, pre <+: loc → pre ≠ [] → node pre = some .dir

/-- A place that is reached without a symbolic link. -/
def Real (node : Loc → Option Node) (loc : Loc) : Prop :=
  Dirs node loc ∨ ∃ dir name, loc = dir ++ [name] ∧ Dirs node dir ∧ isPlain name ∧
    node loc = some .file

structure FileTree where
  node : Loc → Option Node
  cwd : Loc
  cwdDirs : Dirs node cwd

section Walking

variable (node : Loc → Option Node)

def advance : Loc → List Str → Stretch
  | cur, [] => .done (.found cur)
  | cur, name :: rest =>
    if name = [] ∨ name = ".".toList then advance cur rest
    else if name = "..".toList then advance cur.dropLast rest
    else
      match node (cur ++ [name]) with
      | none => .done (if rest = [] then .missing (cur ++ [name]) else .failed .notFound)
      | some .file =>
        .done (if rest = [] then .found (cur ++ [name]) else .failed .notADirectory)
      | some .dir => advance (cur ++ [name]) rest
      | some (.link target) => .link cur target rest

/-- Follow a path, through at most so many symbolic links. -/
def walk : Nat → Loc → List Str → Walked
  | links, cur, parts =>
    match advance node cur parts with
    | .done w => w
    | .link dir target rest =>
      if target = [] then .failed .notFound
      else
        match links with
        | 0 => .failed .tooManyLinks
        | links + 1 =>
          walk links (if target.head? = some '/' then [] else dir) (segments target ++ rest)

end Walking

def FileTree.follow (fs : FileTree) (links : Nat) (path : Str) : Walked :=
  if path = [] then .failed .notFound
  else walk fs.node links (if path.head? = some '/' then [] else fs.cwd) (segments path)

section Reaching

variable {node : Loc → Option Node} {cur loc dir : Loc} {name target : Str}
  {parts rest : List Str} {links : Nat}

theorem Dirs.nil : Dirs node [] :=
  ⟨by simp, fun pre hpre hne => absurd (List.prefix_nil.mp hpre) hne⟩

theorem Dirs.of_prefix (h : Dirs node loc) (hpre : dir <+: loc) : Dirs node dir :=
  ⟨fun name hname => h.1 name (hpre.subset hname), fun pre hp => h.2 pre (hp.trans hpre)⟩

theorem Dirs.enter (h : Dirs node cur) (hname : isPlain name)
    (hdir : node (cur ++ [name]) = some .dir) : Dirs node (cur ++ [name]) := by
  constructor
  · rw [List.forall_mem_append]
    exact ⟨h.1, by simpa using hname⟩
  · intro pre hpre hne
    obtain hlast | hinit := List.prefix_concat_iff.mp hpre
    · rw [hlast]
      exact hdir
    · exact h.2 pre hinit hne

theorem isPlain_of_not (hskip : ¬ (name = [] ∨ name = ".".toList)) (hup : name ≠ "..".toList) :
    isPlain name := by
  rw [not_or] at hskip
  simpa [isPlain] using ⟨hskip.1, hskip.2, hup⟩

theorem not_skip (hname : isPlain name) : ¬ (name = [] ∨ name = ".".toList) := by
  rw [isPlain, decide_eq_true_eq] at hname
  rw [not_or]
  exact ⟨hname.1, hname.2.1⟩

theorem not_up (hname : isPlain name) : name ≠ "..".toList := by
  rw [isPlain, decide_eq_true_eq] at hname
  exact hname.2.2

theorem advance_found (hcur : Dirs node cur) (h : advance node cur parts = .done (.found loc)) :
    Real node loc := by
  induction parts generalizing cur with
  | nil =>
    cases h
    exact Or.inl hcur
  | cons name parts ih =>
    rw [advance] at h
    split at h
    · exact ih hcur h
    · rename_i hskip
      split at h
      · exact ih (hcur.of_prefix (List.dropLast_prefix cur)) h
      · rename_i hup
        have hname := isPlain_of_not hskip hup
        split at h
        · split at h <;> cases h
        · rename_i hfile
          split at h <;> cases h
          exact Or.inr ⟨cur, name, rfl, hcur, hname, hfile⟩
        · rename_i hdir
          exact ih (hcur.enter hname hdir) h
        · cases h

theorem advance_link (hcur : Dirs node cur) (h : advance node cur parts = .link dir target rest) :
    Dirs node dir := by
  induction parts generalizing cur with
  | nil => cases h
  | cons name parts ih =>
    rw [advance] at h
    split at h
    · exact ih hcur h
    · rename_i hskip
      split at h
      · exact ih (hcur.of_prefix (List.dropLast_prefix cur)) h
      · rename_i hup
        split at h
        · cases h
        · cases h
        · rename_i hdir
          exact ih (hcur.enter (isPlain_of_not hskip hup) hdir) h
        · cases h
          exact hcur

/-- Where a walk ends there is no symbolic link on the direct way. -/
theorem walk_found (hcur : Dirs node cur) (h : walk node links cur parts = .found loc) :
    Real node loc := by
  induction links generalizing cur parts with
  | zero =>
    rw [walk] at h
    split at h
    · rename_i w hw
      subst h
      exact advance_found hcur hw
    · split at h <;> cases h
  | succ links ih =>
    rw [walk] at h
    split at h
    · rename_i w hw
      subst h
      exact advance_found hcur hw
    · rename_i dir target rest hlink
      split at h
      · cases h
      · apply ih _ h
        split
        · exact Dirs.nil
        · exact advance_link hcur hlink

theorem FileTree.follow_found {fs : FileTree} {path : Str} (h : fs.follow links path = .found loc) :
    Real fs.node loc := by
  rw [FileTree.follow] at h
  split at h
  · cases h
  · apply walk_found _ h
    split
    · exact Dirs.nil
    · exact fs.cwdDirs

/-- Directories are walked through by their names. -/
theorem advance_dirs (h : Dirs node (cur ++ loc)) :
    advance node cur (loc ++ rest) = advance node (cur ++ loc) rest := by
  induction loc generalizing cur with
  | nil => rw [List.nil_append, List.append_nil]
  | cons name loc ih =>
    have hsplit : cur ++ name :: loc = cur ++ [name] ++ loc := by simp
    have hname : isPlain name := h.1 name (by simp)
    have hdir : node (cur ++ [name]) = some .dir :=
      h.2 _ (hsplit ▸ List.prefix_append _ _) (by simp)
    rw [List.cons_append, advance, if_neg (not_skip hname), if_neg (not_up hname), hdir, hsplit]
    exact ih (hsplit ▸ h)

theorem walk_entry (h : Dirs node dir) :
    walk node links [] (dir ++ rest) = walk node links dir rest := by
  have hadvance : advance node [] (dir ++ rest) = advance node ([] ++ dir) rest :=
    advance_dirs h
  rw [List.nil_append] at hadvance
  rw [walk, walk, hadvance]

theorem advance_entry (hname : isPlain name) : advance node dir [name] =
    match node (dir ++ [name]) with
    | none => .done (.missing (dir ++ [name]))
    | some .file => .done (.found (dir ++ [name]))
    | some .dir => .done (.found (dir ++ [name]))
    | some (.link target) => .link dir target [] := by
  rw [advance, if_neg (not_skip hname), if_neg (not_up hname)]
  split <;> rfl

/-- A place without symbolic links on the way is where its names lead. -/
theorem walk_real (h : Real node loc) : walk node links [] loc = .found loc := by
  obtain hdirs | ⟨dir, name, rfl, hdir, hname, hfile⟩ := h
  · have hwalk : walk node links [] (loc ++ []) = walk node links loc [] := walk_entry hdirs
    rw [List.append_nil] at hwalk
    rw [hwalk, walk]
    rfl
  · rw [walk_entry hdir, walk, advance_entry hname, hfile]

end Reaching

end Clawreform.Lib.FileWalk
