import Clawreform.Lib.Toml
import Mathlib.Data.List.Nodup

namespace Clawreform.Kernel.ConfigIncludes

open Clawreform.Lib.Text Clawreform.Lib.Toml

variable {Path : Type}

section Code

/-- Paths, the file system and the parser. -/
structure Files (Path : Type) where
  isAbsolute : Str → Bool
  hasParentDir : Str → Bool
  join : Path → Str → Path
  parent : Path → Option Path
  startsWith : Path → Path → Bool
  canonicalize : Path → Option Path
  readToString : Path → Option Str
  parse : Str → Option Document

inductive IncludeError where
  | depth
  | absolutePath (includePath : Str)
  | pathTraversal (includePath : Str)
  | unresolved (includePath : Str)
  | configDir
  | escapes (includePath : Str)
  | circular (includePath : Str)
  | unreadable (includePath : Str)
  | unparsable (includePath : Str)
  deriving DecidableEq

def maxIncludeDepth : Nat := 10

mutual

def deepMergeToml : Value → Value → Value
  | .table base, .table overlay => .table (mergeEntries base overlay)
  | _, overlay => overlay

def mergeEntries (base : Table) : List (Str × Value) → Table
  | [] => base
  | (key, overlayVal) :: rest =>
    mergeEntries
      (match base.lookup key with
      | some baseVal => replace key (deepMergeToml baseVal overlayVal) base
      | none => base ++ [(key, overlayVal)])
      rest

end

def includeKey : Str := "include".toList

def removeInclude : Value → Value
  | .table entries => .table (remove includeKey entries)
  | v => v

/-- The include list; there is nothing to resolve when it is empty or missing. -/
def includesOf : Value → List Str
  | .table entries =>
    match entries.lookup includeKey with
    | some (.array items) => items.filterMap asStr
    | _ => []
  | _ => []

variable (fs : Files Path)

/-- The checks up to the visited set. -/
def locate (dir : Path) (includePath : Str) : Except IncludeError Path :=
  if fs.isAbsolute includePath then .error (.absolutePath includePath)
  else if fs.hasParentDir includePath then .error (.pathTraversal includePath)
  else
    match fs.canonicalize (fs.join dir includePath) with
    | none => .error (.unresolved includePath)
    | some canonical =>
      match fs.canonicalize dir with
      | none => .error .configDir
      | some canonicalDir =>
        if fs.startsWith canonical canonicalDir then .ok canonical
        else .error (.escapes includePath)

def load (includePath : Str) (canonical : Path) : Except IncludeError Document :=
  match fs.readToString canonical with
  | none => .error (.unreadable includePath)
  | some contents =>
    match fs.parse contents with
    | none => .error (.unparsable includePath)
    | some document => .ok document

def includeDir (dir canonical : Path) : Path := (fs.parent canonical).getD dir

/-- What a call leaves: its result, the root value and the visited files. -/
abbrev Outcome (Path : Type) := Except IncludeError Unit × Value × List Path

variable [DecidableEq Path]

/-- The includes of one file, merged from left to right. -/
def includeLoop (resolve : Value → Path → List Path → Outcome Path) (dir : Path) :
    List Str → Value → List Path → Except IncludeError Value × List Path
  | [], mergedBase, visited => (.ok mergedBase, visited)
  | includePath :: rest, mergedBase, visited =>
    match locate fs dir includePath with
    | .error e => (.error e, visited)
    | .ok canonical =>
      if canonical ∈ visited then (.error (.circular includePath), visited)
      else
        match load fs includePath canonical with
        | .error e => (.error e, canonical :: visited)
        | .ok document =>
          match resolve document.value (includeDir fs dir canonical) (canonical :: visited) with
          | (.error e, _, visited) => (.error e, visited)
          | (.ok (), value, visited) =>
            includeLoop resolve dir rest (deepMergeToml mergedBase (removeInclude value)) visited

/-- The first argument counts the nestings that are left. -/
def resolveConfigIncludes : Nat → Value → Path → List Path → Outcome Path
  | 0, root, _, visited => (.error .depth, root, visited)
  | levels + 1, root, dir, visited =>
    if includesOf root = [] then (.ok (), root, visited)
    else
      match includeLoop fs (resolveConfigIncludes levels) dir (includesOf root) (.table []) visited
        with
      | (.error e, visited) => (.error e, root, visited)
      | (.ok mergedBase, visited) =>
        (.ok (), deepMergeToml mergedBase (removeInclude root), visited)

end Code

section Merging

variable {base overlay entries : Table} {key k : Str} {v top : Value}

/-- What one turn of the merge makes of the base. -/
theorem lookup_mergeEntry : List.lookup k
      (match base.lookup key with
      | some baseVal => replace key (deepMergeToml baseVal v) base
      | none => base ++ [(key, v)]) =
    if k = key then some ((base.lookup key).elim v fun baseVal => deepMergeToml baseVal v)
    else base.lookup k := by
  cases hbase : base.lookup key with
  | none =>
    simp only
    rw [List.lookup_append, lookup_entry]
    by_cases hk : k = key
    · rw [if_pos hk, if_pos hk, hk, hbase]
      rfl
    · rw [if_neg hk, if_neg hk, List.lookup_nil, Option.or_none]
  | some baseVal =>
    simp only
    rw [lookup_replace]
    by_cases hk : k = key
    · rw [if_pos hk, if_pos hk, hk, hbase]
      rfl
    · rw [if_neg hk, if_neg hk]

theorem keys_mergeEntry (h : (base.map Prod.fst).Nodup) : List.Nodup (List.map Prod.fst
      (match base.lookup key with
      | some baseVal => replace key (deepMergeToml baseVal v) base
      | none => base ++ [(key, v)])) := by
  cases hbase : base.lookup key with
  | none =>
    have hnew := lookup_eq_none_iff.mp hbase
    simp only
    rw [List.map_append, List.nodup_append]
    refine ⟨h, by simp, ?_⟩
    intro k hk k' hk'
    obtain rfl : k' = key := by simpa using hk'
    rintro rfl
    exact hnew hk
  | some baseVal =>
    simp only
    rw [keys_replace]
    exact h

theorem mem_mergeEntry {e : Str × Value} (h : e ∈
      (match base.lookup key with
      | some baseVal => replace key (deepMergeToml baseVal v) base
      | none => base ++ [(key, v)])) :
    e ∈ base ∨ e.2 = (base.lookup key).elim v fun baseVal => deepMergeToml baseVal v := by
  cases hbase : base.lookup key with
  | none =>
    rw [hbase] at h
    obtain h | h := List.mem_append.mp h
    · exact .inl h
    · rw [List.mem_singleton.mp h]
      exact .inr rfl
  | some baseVal =>
    rw [hbase] at h
    obtain ⟨e', he', rfl⟩ := List.mem_map.mp h
    by_cases hkey : e'.1 = key
    · rw [if_pos hkey]
      exact .inr rfl
    · rw [if_neg hkey]
      exact .inl he'

theorem lookup_mergeEntries (h : (overlay.map Prod.fst).Nodup) (k : Str) :
    (mergeEntries base overlay).lookup k =
      match base.lookup k, overlay.lookup k with
      | some x, some y => some (deepMergeToml x y)
      | x, none => x
      | none, y => y := by
  induction overlay generalizing base with
  | nil =>
    rw [mergeEntries]
    cases base.lookup k with
    | none => rfl
    | some x => rfl
  | cons e overlay ih =>
    obtain ⟨key, v⟩ := e
    obtain ⟨hkey, hrest⟩ := List.nodup_cons.mp h
    rw [mergeEntries, ih hrest, lookup_entry, lookup_mergeEntry]
    by_cases hk : k = key
    · subst hk
      rw [if_pos rfl, if_pos rfl, lookup_eq_none_iff.mpr hkey]
      cases base.lookup k with
      | none => rfl
      | some x => rfl
    · rw [if_neg hk, if_neg hk]

theorem deepMergeToml_replaces {base : Value}
    (h : ∀ entries entries', base = .table entries → top ≠ .table entries') :
    deepMergeToml base top = top := by
  cases base with
  | table entries =>
    cases top with
    | table entries' => exact absurd rfl (h _ _ rfl)
    | _ => rfl
  | _ => cases top <;> rfl

/-- A merge is the overlay of the two values. -/
theorem overlays_deepMergeToml (base : Value) (h : WellFormed top) :
    Overlays base top (deepMergeToml base top) := by
  induction h generalizing base with
  | @table overlay hkeys _ ih =>
    cases base with
    | table entries =>
      have hlookup := @lookup_mergeEntries entries overlay hkeys
      have hmerged : ∀ k x y, entries.lookup k = some x → overlay.lookup k = some y →
          (mergeEntries entries overlay).lookup k = some (deepMergeToml x y) := by
        intro k x y hx hy
        rw [hlookup, hx, hy]
      rw [deepMergeToml]
      refine .tables (fun k => ((mergeEntries entries overlay).lookup k).getD (.boolean true))
        ?_ ?_ ?_ ?_
      · intro k hk
        rw [hlookup, hk]
        cases entries.lookup k <;> rfl
      · intro k hk
        rw [hlookup, hk]
        cases overlay.lookup k <;> rfl
      · intro k x y hx hy
        rw [hmerged k x y hx hy]
        rfl
      · intro k x y hx hy
        simp only [hmerged k x y hx hy, Option.getD_some]
        exact ih (k, y) (mem_of_lookup hy) x
    | _ => exact .replaces (by simp)
  | @other v hv =>
    rw [deepMergeToml_replaces fun _ entries' _ => hv entries']
    exact .replaces fun _ entries' _ => hv entries'

theorem wellFormed_deepMergeToml {base : Value} (hbase : WellFormed base) (htop : WellFormed top) :
    WellFormed (deepMergeToml base top) := by
  induction htop generalizing base with
  | @table overlay hkeys hvalues ih =>
    cases base with
    | table entries =>
      rw [deepMergeToml]
      clear hkeys
      induction overlay generalizing entries with
      | nil => exact hbase
      | cons e overlay ih' =>
        obtain ⟨key, v⟩ := e
        rw [mergeEntries]
        refine ih' (fun e he => hvalues e (List.mem_cons_of_mem _ he))
          (fun e he => ih e (List.mem_cons_of_mem _ he)) _ ?_
        refine .table (keys_mergeEntry hbase.keys) ?_
        intro e' he'
        obtain he' | he' := mem_mergeEntry he'
        · exact hbase.value he'
        · rw [he']
          cases hold : entries.lookup key with
          | none => exact hvalues (key, v) List.mem_cons_self
          | some baseVal => exact ih (key, v) List.mem_cons_self (hbase.value (mem_of_lookup hold))
    | _ => exact .table hkeys hvalues
  | @other v hv =>
    rw [deepMergeToml_replaces fun _ entries' _ => hv entries']
    exact .other hv

end Merging

section Purpose

variable (fs : Files Path)

mutual

/-- What a file gives with its includes under it and without its include list; the first argument
counts the nestings that are left. -/
inductive Merged : Nat → Path → Value → Value → Prop where
  | intro {levels : Nat} {dir : Path} {v base r : Value}
      (includes : MergedAll levels dir (includesOf v) (.table []) base)
      (top : Overlays base (removeInclude v) r) : Merged (levels + 1) dir v (removeInclude r)

/-- The includes of a file over each other, from left to right. -/
inductive MergedAll : Nat → Path → List Str → Value → Value → Prop where
  | nil {levels : Nat} {dir : Path} {base : Value} : MergedAll levels dir [] base base
  | cons {levels : Nat} {dir : Path} {includePath : Str} {rest : List Str} {canonical : Path}
      {document : Document} {base value base' r : Value}
      (located : locate fs dir includePath = .ok canonical)
      (loaded : load fs includePath canonical = .ok document)
      (resolved : Merged levels (includeDir fs dir canonical) document.value value)
      (merges : Overlays base value base') (others : MergedAll levels dir rest base' r) :
      MergedAll levels dir (includePath :: rest) base r

end

/-- Some include may fail: it is refused, unreadable or unparsable, nested too deep, or one of the
files that lead to it. -/
inductive Faulty : Nat → List Path → Path → Value → Prop where
  | tooDeep {chain : List Path} {dir : Path} {v : Value} : Faulty 0 chain dir v
  | refused {levels : Nat} {chain : List Path} {dir : Path} {v : Value} {includePath : Str}
      {e : IncludeError} (mem : includePath ∈ includesOf v)
      (located : locate fs dir includePath = .error e) (reason : e ≠ .configDir) :
      Faulty (levels + 1) chain dir v
  | unloadable {levels : Nat} {chain : List Path} {dir : Path} {v : Value} {includePath : Str}
      {canonical : Path} {e : IncludeError} (mem : includePath ∈ includesOf v)
      (located : locate fs dir includePath = .ok canonical)
      (loaded : load fs includePath canonical = .error e) : Faulty (levels + 1) chain dir v
  | cycle {levels : Nat} {chain : List Path} {dir : Path} {v : Value} {includePath : Str}
      {canonical : Path} (mem : includePath ∈ includesOf v)
      (located : locate fs dir includePath = .ok canonical) (again : canonical ∈ chain) :
      Faulty (levels + 1) chain dir v
  | nested {levels : Nat} {chain : List Path} {dir : Path} {v : Value} {includePath : Str}
      {canonical : Path} {document : Document} (mem : includePath ∈ includesOf v)
      (located : locate fs dir includePath = .ok canonical)
      (loaded : load fs includePath canonical = .ok document)
      (fault : Faulty levels (canonical :: chain) (includeDir fs dir canonical) document.value) :
      Faulty (levels + 1) chain dir v

/-- A file with includes whose directory has no real path. -/
inductive Displaced : Nat → Path → Value → Prop where
  | here {levels : Nat} {dir : Path} {v : Value} {includePath : Str}
      (mem : includePath ∈ includesOf v)
      (located : locate fs dir includePath = .error .configDir) : Displaced (levels + 1) dir v
  | nested {levels : Nat} {dir : Path} {v : Value} {includePath : Str} {canonical : Path}
      {document : Document} (mem : includePath ∈ includesOf v)
      (located : locate fs dir includePath = .ok canonical)
      (loaded : load fs includePath canonical = .ok document)
      (fault : Displaced levels (includeDir fs dir canonical) document.value) :
      Displaced (levels + 1) dir v

/-- The files that an include leads to, given those that its own includes lead to. -/
def reachedBy (below : Path → Value → List Path) (dir : Path) (includePath : Str) : List Path :=
  match locate fs dir includePath with
  | .error _ => []
  | .ok canonical =>
    match load fs includePath canonical with
    | .error _ => [canonical]
    | .ok document => canonical :: below (includeDir fs dir canonical) document.value

/-- The files that the includes lead to, each as often as it is reached. -/
def reached : Nat → Path → Value → List Path
  | 0, _, _ => []
  | levels + 1, dir, v => (includesOf v).flatMap (reachedBy fs (reached levels) dir)

/-- What the resolution of a root value is for. -/
structure Lawful (levels : Nat) (dir : Path) (root : Value) (chain : List Path)
    (outcome : Outcome Path) : Prop where
  merges : outcome.1 = .ok () → Merged fs levels dir root (removeInclude outcome.2.1)
  fails : ∀ e, outcome.1 = .error e → Faulty fs levels chain dir root ∧ outcome.2.1 = root

end Purpose

section Runs

variable {fs : Files Path} {levels : Nat} {dir : Path} {root : Value} {visited : List Path}

theorem overlays_empty {v : Value} : Overlays (.table []) v v := by
  cases v with
  | table entries =>
    refine .tables (fun _ => .boolean true) ?_ ?_ ?_ ?_
    · exact fun k hk => hk
    · exact fun k _ => rfl
    · intro k x y hx
      cases hx
    · intro k x y hx
      cases hx
  | _ => exact .replaces (by simp)

theorem removeInclude_removeInclude (v : Value) :
    removeInclude (removeInclude v) = removeInclude v := by
  cases v with
  | table entries => simp [removeInclude, remove]
  | _ => rfl

theorem WellFormed.removeInclude {v : Value} (h : WellFormed v) :
    WellFormed (removeInclude v) := by
  cases v with
  | table entries => exact h.remove includeKey
  | _ => exact h

theorem reachedBy_ok {below : Path → Value → List Path} {includePath : Str} {canonical : Path}
    {document : Document} (hlocate : locate fs dir includePath = .ok canonical)
    (hload : load fs includePath canonical = .ok document) :
    reachedBy fs below dir includePath =
      canonical :: below (includeDir fs dir canonical) document.value := by
  simp only [reachedBy, hlocate, hload]

theorem not_displaced_of {v : Value} (h : ∀ includePath ∈ includesOf v, ∃ canonical document,
    locate fs dir includePath = .ok canonical ∧ load fs includePath canonical = .ok document ∧
      ¬ Displaced fs levels (includeDir fs dir canonical) document.value) :
    ¬ Displaced fs (levels + 1) dir v := by
  intro hdisplaced
  cases hdisplaced with
  | here mem located =>
    obtain ⟨canonical, document, hlocate, -⟩ := h _ mem
    cases located.symm.trans hlocate
  | nested mem located loaded fault =>
    obtain ⟨canonical, document, hlocate, hload, hplaced⟩ := h _ mem
    cases located.symm.trans hlocate
    cases loaded.symm.trans hload
    exact hplaced fault

/-- Without a fault an include is located and loaded, and there is none below it. -/
theorem sound_of_not_faulty {chain : List Path} {v : Value} {includePath : Str}
    (hfault : ¬ Faulty fs (levels + 1) chain dir v) (hplaced : ¬ Displaced fs (levels + 1) dir v)
    (hmem : includePath ∈ includesOf v) : ∃ canonical document,
      locate fs dir includePath = .ok canonical ∧ load fs includePath canonical = .ok document ∧
      ¬ Faulty fs levels (canonical :: chain) (includeDir fs dir canonical) document.value ∧
      ¬ Displaced fs levels (includeDir fs dir canonical) document.value := by
  cases hlocate : locate fs dir includePath with
  | error e =>
    by_cases hdir : e = .configDir
    · rw [hdir] at hlocate
      exact absurd (.here hmem hlocate) hplaced
    · exact absurd (.refused hmem hlocate hdir) hfault
  | ok canonical =>
    cases hload : load fs includePath canonical with
    | error e => exact absurd (.unloadable hmem hlocate hload) hfault
    | ok document =>
      exact ⟨canonical, document, rfl, hload,
        fun hbelow => hfault (.nested hmem hlocate hload hbelow),
        fun hbelow => hplaced (.nested hmem hlocate hload hbelow)⟩

theorem not_faulty_of {chain : List Path} {v : Value} (h : ∀ includePath ∈ includesOf v,
    ∃ canonical document, locate fs dir includePath = .ok canonical ∧
      load fs includePath canonical = .ok document ∧ canonical ∉ chain ∧
      ¬ Faulty fs levels (canonical :: chain) (includeDir fs dir canonical) document.value) :
    ¬ Faulty fs (levels + 1) chain dir v := by
  intro hfault
  cases hfault with
  | refused mem located _ =>
    obtain ⟨canonical, document, hlocate, -⟩ := h _ mem
    cases located.symm.trans hlocate
  | unloadable mem located loaded =>
    obtain ⟨canonical, document, hlocate, hload, -⟩ := h _ mem
    cases located.symm.trans hlocate
    cases loaded.symm.trans hload
  | cycle mem located again =>
    obtain ⟨canonical, document, hlocate, -, hnew, -⟩ := h _ mem
    cases located.symm.trans hlocate
    exact hnew again
  | nested mem located loaded fault =>
    obtain ⟨canonical, document, hlocate, hload, -, hsound⟩ := h _ mem
    cases located.symm.trans hlocate
    cases loaded.symm.trans hload
    exact hsound fault

theorem wellFormed_empty : WellFormed (.table []) := .table (by simp) (by simp)

variable [DecidableEq Path]

/-- On failure the root value is what it was. -/
theorem root_of_error {e : IncludeError}
    (h : (resolveConfigIncludes fs levels root dir visited).1 = .error e) :
    (resolveConfigIncludes fs levels root dir visited).2.1 = root := by
  cases levels with
  | zero => rfl
  | succ levels =>
    unfold resolveConfigIncludes at h ⊢
    split
    · rfl
    · rename_i hne
      rw [if_neg hne] at h
      split at h
      · simp_all
      · cases h

/-- What a resolution that succeeds has done. -/
structure Done (fs : Files Path) (levels : Nat) (dir : Path) (v : Value) (visited : List Path)
    (v' : Value) (visited' : List Path) : Prop where
  merged : Merged fs levels dir v (removeInclude v')
  wellFormed : WellFormed v'
  visits : visited' = (reached fs levels dir v).reverse ++ visited
  nodup : visited.Nodup → visited'.Nodup
  placed : ¬ Displaced fs levels dir v

/-- The same of a part of the includes. -/
structure DoneAll (fs : Files Path) (levels : Nat) (dir : Path) (includes : List Str) (base : Value)
    (visited : List Path) (r : Value) (visited' : List Path) : Prop where
  merged : MergedAll fs levels dir includes base r
  wellFormed : WellFormed base → WellFormed r
  visits : visited' = (includes.flatMap (reachedBy fs (reached fs levels) dir)).reverse ++ visited
  nodup : visited.Nodup → visited'.Nodup
  placed : ∀ includePath ∈ includes, ∃ canonical document,
    locate fs dir includePath = .ok canonical ∧ load fs includePath canonical = .ok document ∧
      ¬ Displaced fs levels (includeDir fs dir canonical) document.value

/-- One turn of the loop that is not its last. -/
theorem includeLoop_cons {resolve : Value → Path → List Path → Outcome Path} {includePath : Str}
    {rest : List Str} {base r : Value} {visited' : List Path}
    (h : includeLoop fs resolve dir (includePath :: rest) base visited = (.ok r, visited')) :
    ∃ canonical document value seen, locate fs dir includePath = .ok canonical ∧
      canonical ∉ visited ∧ load fs includePath canonical = .ok document ∧
      resolve document.value (includeDir fs dir canonical) (canonical :: visited) =
        (.ok (), value, seen) ∧
      includeLoop fs resolve dir rest (deepMergeToml base (removeInclude value)) seen =
        (.ok r, visited') := by
  rw [includeLoop] at h
  cases hlocate : locate fs dir includePath with
  | error e =>
    rw [hlocate] at h
    cases h
  | ok canonical =>
    simp only [hlocate] at h
    split at h
    · cases h
    · rename_i hnew
      cases hload : load fs includePath canonical with
      | error e =>
        rw [hload] at h
        cases h
      | ok document =>
        simp only [hload] at h
        split at h
        · cases h
        · rename_i value seen hresolve
          exact ⟨canonical, document, value, seen, rfl, hnew, hload, hresolve, h⟩

theorem doneAll_of_ok {includes : List Str} {base r : Value} {visited' : List Path}
    (ih : ∀ {v dir visited v' visited'}, WellFormed v →
      resolveConfigIncludes fs levels v dir visited = (.ok (), v', visited') →
        Done fs levels dir v visited v' visited')
    (h : includeLoop fs (resolveConfigIncludes fs levels) dir includes base visited =
      (.ok r, visited')) : DoneAll fs levels dir includes base visited r visited' := by
  induction includes generalizing base visited with
  | nil =>
    cases h
    exact ⟨.nil, id, by simp, id, by simp⟩
  | cons includePath rest ihRest =>
    obtain ⟨canonical, document, value, seen, hlocate, hnew, hload, hresolve, hloop⟩ :=
      includeLoop_cons h
    have hdone := ih document.wellFormed hresolve
    have hrest := ihRest hloop
    have htop : WellFormed (removeInclude value) := WellFormed.removeInclude hdone.wellFormed
    refine ⟨.cons hlocate hload hdone.merged (overlays_deepMergeToml _ htop) hrest.merged, ?_, ?_,
      ?_, ?_⟩
    · exact fun hbase => hrest.wellFormed (wellFormed_deepMergeToml hbase htop)
    · rw [hrest.visits, hdone.visits, List.flatMap_cons, reachedBy_ok hlocate hload]
      simp
    · exact fun hvisited => hrest.nodup (hdone.nodup (List.nodup_cons.mpr ⟨hnew, hvisited⟩))
    · exact List.forall_mem_cons.mpr
        ⟨⟨canonical, document, hlocate, hload, hdone.placed⟩, hrest.placed⟩

/-- A resolution that succeeds merges, and reaches no file twice. -/
theorem done_of_ok {v v' : Value} {visited' : List Path} (hv : WellFormed v)
    (h : resolveConfigIncludes fs levels v dir visited = (.ok (), v', visited')) :
    Done fs levels dir v visited v' visited' := by
  induction levels generalizing v dir visited v' visited' with
  | zero => cases h
  | succ levels ih =>
    rw [resolveConfigIncludes] at h
    split at h
    · rename_i hnone
      cases h
      refine ⟨?_, hv, ?_, id, ?_⟩
      · have hmerged : Merged fs (levels + 1) dir v (removeInclude (removeInclude v)) :=
          .intro (by rw [hnone]; exact .nil) overlays_empty
        rwa [removeInclude_removeInclude] at hmerged
      · simp [reached, hnone]
      · exact not_displaced_of (by simp [hnone])
    · split at h
      · cases h
      · rename_i base seen hloop
        cases h
        have hdone := doneAll_of_ok ih hloop
        have hbase := hdone.wellFormed wellFormed_empty
        exact ⟨.intro hdone.merged (overlays_deepMergeToml _ (WellFormed.removeInclude hv)),
          wellFormed_deepMergeToml hbase (WellFormed.removeInclude hv), hdone.visits, hdone.nodup,
          not_displaced_of hdone.placed⟩

theorem loop_ok {chain : List Path} {includes : List Str} {base : Value}
    (ih : ∀ {chain dir v visited}, WellFormed v → ¬ Faulty fs levels chain dir v →
      ¬ Displaced fs levels dir v → ((reached fs levels dir v).reverse ++ visited).Nodup →
        ∃ v' visited', resolveConfigIncludes fs levels v dir visited = (.ok (), v', visited'))
    (hsound : ∀ includePath ∈ includes, ∃ canonical document,
      locate fs dir includePath = .ok canonical ∧ load fs includePath canonical = .ok document ∧
      ¬ Faulty fs levels (canonical :: chain) (includeDir fs dir canonical) document.value ∧
      ¬ Displaced fs levels (includeDir fs dir canonical) document.value)
    (hnodup : ((includes.flatMap (reachedBy fs (reached fs levels) dir)).reverse ++
      visited).Nodup) :
    ∃ r visited', includeLoop fs (resolveConfigIncludes fs levels) dir includes base visited =
      (.ok r, visited') := by
  induction includes generalizing base visited with
  | nil => exact ⟨base, visited, rfl⟩
  | cons includePath rest ihRest =>
    obtain ⟨⟨canonical, document, hlocate, hload, hfault, hplaced⟩, hrest⟩ :=
      List.forall_mem_cons.mp hsound
    rw [List.flatMap_cons, reachedBy_ok hlocate hload, List.reverse_append, List.reverse_cons,
      List.append_assoc, List.append_assoc, List.singleton_append] at hnodup
    have hbelow := (List.nodup_append.mp hnodup).2.1
    have hnew : canonical ∉ visited := (List.nodup_cons.mp (List.nodup_append.mp hbelow).2.1).1
    obtain ⟨value, seen, hresolve⟩ := ih document.wellFormed hfault hplaced hbelow
    have hseen := (done_of_ok document.wellFormed hresolve).visits
    rw [← hseen] at hnodup
    obtain ⟨r, visited', hloop⟩ :=
      @ihRest seen (deepMergeToml base (removeInclude value)) hrest hnodup
    refine ⟨r, visited', ?_⟩
    simp only [includeLoop, hlocate, hload, hresolve, hloop]
    rw [if_neg hnew]

/-- A resolution succeeds when nothing is at fault and no file is reached twice. -/
theorem ok_of {chain : List Path} {v : Value} (hv : WellFormed v)
    (hfault : ¬ Faulty fs levels chain dir v) (hplaced : ¬ Displaced fs levels dir v)
    (hnodup : ((reached fs levels dir v).reverse ++ visited).Nodup) :
    ∃ v' visited', resolveConfigIncludes fs levels v dir visited = (.ok (), v', visited') := by
  induction levels generalizing chain dir v visited with
  | zero => exact absurd .tooDeep hfault
  | succ levels ih =>
    rw [resolveConfigIncludes]
    split
    · exact ⟨v, visited, rfl⟩
    · have hsound := fun includePath hmem =>
        @sound_of_not_faulty _ _ levels _ _ _ includePath hfault hplaced hmem
      obtain ⟨r, visited', hloop⟩ := @loop_ok _ _ levels _ _ _ _ _ (.table []) ih hsound hnodup
      rw [hloop]
      exact ⟨_, _, rfl⟩

/-- Resolution merges what it should, and fails for no other reason, exactly when something is at
fault, or every directory has a real path and no file is reached twice. -/
theorem lawful_iff (fs : Files Path) (dir rootPath : Path) (root : Document) :
    Lawful fs (maxIncludeDepth + 1) dir root.value [rootPath]
        (resolveConfigIncludes fs (maxIncludeDepth + 1) root.value dir [rootPath]) ↔
      Faulty fs (maxIncludeDepth + 1) [rootPath] dir root.value ∨
        ¬ Displaced fs (maxIncludeDepth + 1) dir root.value ∧
          (rootPath :: reached fs (maxIncludeDepth + 1) dir root.value).Nodup := by
  have hperm : ((reached fs (maxIncludeDepth + 1) dir root.value).reverse ++ [rootPath]).Nodup ↔
      (rootPath :: reached fs (maxIncludeDepth + 1) dir root.value).Nodup := by
    rw [← List.reverse_cons, List.nodup_reverse]
  obtain ⟨result, value, seen, hout⟩ : ∃ result value seen,
      resolveConfigIncludes fs (maxIncludeDepth + 1) root.value dir [rootPath] =
        (result, value, seen) := ⟨_, _, _, rfl⟩
  have hroot := @root_of_error _ fs (maxIncludeDepth + 1) dir root.value [rootPath] _
  rw [hout] at hroot ⊢
  cases result with
  | ok _ =>
    have hdone := done_of_ok root.wellFormed hout
    constructor
    · refine fun _ => .inr ⟨hdone.placed, hperm.mp ?_⟩
      rw [← hdone.visits]
      exact hdone.nodup (List.nodup_singleton rootPath)
    · exact fun _ => ⟨fun _ => hdone.merged, by simp⟩
  | error e =>
    constructor
    · exact fun h => .inl (h.fails e rfl).1
    · intro h
      by_cases hfault : Faulty fs (maxIncludeDepth + 1) [rootPath] dir root.value
      · exact ⟨by simp, fun e' he' => ⟨hfault, hroot he'⟩⟩
      · obtain ⟨hplaced, hnodup⟩ := h.resolve_left hfault
        obtain ⟨v', visited', hok⟩ :=
          ok_of root.wellFormed hfault hplaced (hperm.mpr hnodup)
        cases hout.symm.trans hok

end Runs

section Example

def single (key : String) (v : Value) (h : ∀ entries, v ≠ .table entries) : Document :=
  ⟨.table [(key.toList, v)], .table (by simp) (by simpa using .other h)⟩

/-- A file with only an include list. -/
def including (files : List String) : Document :=
  single "include" (.array (files.map fun file => .string file.toList)) (by simp)

def sharedText : Str := "log_level = \"info\"".toList

def parseExample (text : Str) : Option Document :=
  if text = sharedText then some (single "log_level" (.string "info".toList) (by simp))
  else some (including ["shared.toml"])

/-- The files `a.toml` and `b.toml` both include `shared.toml`. -/
def exampleFiles : Files (List Str) where
  isAbsolute text := (['/'] : Str) <+: text
  hasParentDir text := "..".toList ∈ text.splitOn '/'
  join dir text := dir ++ text.splitOn '/'
  parent path := if path = [] then none else some path.dropLast
  startsWith path dir := dir <+: path
  canonicalize path := some path
  readToString path :=
    if path.getLast? = some "shared.toml".toList then some sharedText
    else some "include = [\"shared.toml\"]".toList
  parse := parseExample

/-- A file that two files include is taken for a cycle. -/
theorem shared_not_lawful :
    ¬ ∀ (fs : Files (List Str)) (dir rootPath : List Str) (root : Document),
      Lawful fs (maxIncludeDepth + 1) dir root.value [rootPath]
        (resolveConfigIncludes fs (maxIncludeDepth + 1) root.value dir [rootPath]) := by
  intro h
  have hlawful := h exampleFiles [] ["config.toml".toList] (including ["a.toml", "b.toml"])
  have hfault := (hlawful.fails (.circular "shared.toml".toList) rfl).1
  have hshared : ∀ (levels : Nat) (chain : List (List Str)),
      ¬ Faulty exampleFiles (levels + 1) chain []
        (single "log_level" (.string "info".toList) (by simp)).value := by
    intro levels chain
    apply not_faulty_of
    intro includePath hmem
    cases hmem
  have hone : ∀ file, ["shared.toml".toList] ∉ [[file], ["config.toml".toList]] →
      ¬ Faulty exampleFiles 10 [[file], ["config.toml".toList]] []
        (including ["shared.toml"]).value := by
    intro file hnew
    apply not_faulty_of
    intro includePath hmem
    obtain rfl : includePath = "shared.toml".toList := List.mem_singleton.mp hmem
    exact ⟨["shared.toml".toList], _, rfl, rfl, hnew, hshared 8 _⟩
  refine not_faulty_of ?_ hfault
  intro includePath hmem
  cases hmem with
  | head => exact ⟨_, _, rfl, rfl, by decide, hone _ (by decide)⟩
  | tail _ hmem =>
    obtain rfl : includePath = "b.toml".toList := List.mem_singleton.mp hmem
    exact ⟨_, _, rfl, rfl, by decide, hone _ (by decide)⟩

end Example

end Clawreform.Kernel.ConfigIncludes
