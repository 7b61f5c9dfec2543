import Clawreform.Lib.Passes
import Clawreform.Lib.Scan

namespace Clawreform.Runtime.ShellBleed

open Clawreform.Lib.Text Clawreform.Lib.Find Clawreform.Lib.Slices Clawreform.Lib.Passes
open Clawreform.Lib.Scan

structure ShellBleedWarning where
  file : Str
  lineNumber : Nat
  pattern : Str
  suggestion : Str
  deriving DecidableEq

section Code

def safeVars : List Str :=
  ["PATH".toList, "HOME".toList, "TMPDIR".toList, "TMP".toList, "TEMP".toList, "LANG".toList,
    "LC_ALL".toList, "TERM".toList, "USER".toList, "LOGNAME".toList, "SHELL".toList, "PWD".toList,
    "OLDPWD".toList, "HOSTNAME".toList, "DISPLAY".toList, "XDG_RUNTIME_DIR".toList,
    "XDG_CONFIG_HOME".toList, "XDG_DATA_HOME".toList, "XDG_CACHE_HOME".toList,
    "USERPROFILE".toList, "SYSTEMROOT".toList, "APPDATA".toList, "LOCALAPPDATA".toList,
    "COMSPEC".toList, "WINDIR".toList, "PATHEXT".toList, "PYTHONPATH".toList,
    "NODE_PATH".toList, "GOPATH".toList, "CARGO_HOME".toList, "RUSTUP_HOME".toList,
    "VIRTUAL_ENV".toList, "CONDA_DEFAULT_ENV".toList, "PYTHONUNBUFFERED".toList, "CI".toList,
    "GITHUB_ACTIONS".toList, "GITHUB_WORKSPACE".toList, "GITHUB_SHA".toList, "GITHUB_REF".toList]

def maxScriptSize : Nat := 100 * 1024

def scriptExtensions : List Str :=
  [".py".toList, ".sh".toList, ".bash".toList, ".rb".toList, ".pl".toList, ".js".toList,
    ".ts".toList, ".ps1".toList]

/-- Parts that look like a script, flags apart. -/
def isScript (part : Str) : Bool :=
  part.head? ≠ some '-' && scriptExtensions.any fun ext => ext.isSuffixOf part

/-- The first part is skipped by a slice, which panics when there is none. -/
def extractScriptPath (command : Str) : Except Stop (Option Str) :=
  match splitWhitespace command with
  | [] => .error .sliced
  | _ :: parts => .ok (parts.find? isScript)

variable (isAlphanumeric : Char → Bool)

def nameChar (c : Char) : Bool := isAlphanumeric c || c = '_'

/-- A variable of a shell at the beginning of a text. The character that ends its name is
consumed with it. -/
def shellVar : Str → Option (Str × Str)
  | '$' :: '{' :: s => some (s.takeWhile (· ≠ '}'), (s.dropWhile (· ≠ '}')).drop 1)
  | '$' :: s =>
    some (s.takeWhile (nameChar isAlphanumeric), (s.dropWhile (nameChar isAlphanumeric)).drop 1)
  | _ => none

def shellVars (line : Str) : List Str :=
  (hunt (shellVar isAlphanumeric) (line.length + 1) line).filter (· ≠ [])

/-- What Python looks up between quotes, with the quote that ends it. -/
def quotedPatterns : List (Str × Char) :=
  [("os.environ[\"".toList, '"'), ("os.environ['".toList, '\''), ("os.getenv(\"".toList, '"'),
    ("os.getenv('".toList, '\'')]

/-- The search goes on at the quote that ends a variable. -/
def quotedVars (line pattern : Str) (quoteChar : Char) : Nat → Nat → Except Stop (List Str)
  | 0, _ => .error .endless
  | turns + 1, searchFrom => do
    let tail ← rest searchFrom line
    match findByte pattern tail with
    | none => pure []
    | some pos =>
      let start := searchFrom + pos + byteLen pattern
      let tail ← rest start line
      match findByte [quoteChar] tail with
      | none => pure []
      | some stop => do
        let var ← part start (start + stop) line
        let vars ← quotedVars line pattern quoteChar turns (start + stop)
        pure (if var = [] then vars else var :: vars)

def processEnv : Str := "process.env.".toList

/-- The search goes on in front of a variable. -/
def processVars (line : Str) : Nat → Nat → Except Stop (List Str)
  | 0, _ => .error .endless
  | turns + 1, searchFrom => do
    let tail ← rest searchFrom line
    match findByte processEnv tail with
    | none => pure []
    | some pos =>
      let start := searchFrom + pos + byteLen processEnv
      let tail ← rest start line
      let var := tail.takeWhile (nameChar isAlphanumeric)
      let vars ← processVars line turns start
      pure (if var = [] then vars else var :: vars)

def extractEnvVarRefs (line : Str) : Except Stop (List Str) := do
  let quoted ← quotedPatterns.mapM fun p => quotedVars line p.1 p.2 (byteLen line + 1) 0
  let process ← processVars isAlphanumeric line (byteLen line + 1) 0
  pure (shellVars isAlphanumeric line ++ quoted.flatten ++ process)

variable (toLowercase : Str → Str)

def isSuspicious (varName : Str) : Bool :=
  ["key".toList, "secret".toList, "token".toList, "password".toList, "credential".toList,
    "auth".toList, "api_key".toList, "apikey".toList].any (contains (toLowercase varName))

def isComment (line : Str) : Bool :=
  ["#".toList, "//".toList, "--".toList].any fun mark => mark.isPrefixOf (trim line)

def scanLine (file : Str) (lineNumber : Nat) (line : Str) :
    Except Stop (List ShellBleedWarning) :=
  if isComment line then pure []
  else do
    let vars ← extractEnvVarRefs isAlphanumeric line
    pure ((vars.filter fun v => v ∉ safeVars ∧ isSuspicious toLowercase v).map fun v =>
      { file, lineNumber, pattern := v,
        suggestion := "Consider passing '".toList ++ v ++
          "' as a tool parameter instead of reading it from the environment.".toList })

/-- The full path of a script and the text of the file there, if it can be read, are what the file
system has them to be. -/
def scanScriptForShellBleed (fullPath : Str → Str) (readToString : Str → Option Str)
    (command : Str) : Except Stop (List ShellBleedWarning) := do
  let scriptPath ← extractScriptPath command
  match scriptPath with
  | none => pure []
  | some scriptPath =>
    match readToString (fullPath scriptPath) with
    | none => pure []
    | some content =>
      if byteLen content > maxScriptSize then pure []
      else do
        let warnings ← (lines content).zipIdx.mapM fun l =>
          scanLine isAlphanumeric toLowercase (fullPath scriptPath) (l.2 + 1) l.1
        pure warnings.flatten

end Code

section Loops

/-- What stands between the quotes of a look-up at the beginning of a text. -/
def quotedVar (pattern : Str) (quoteChar : Char) (s : Str) : Option (Str × Str) :=
  (stripPrefix pattern s).bind fun body =>
    if quoteChar ∈ body then some (body.takeWhile (· ≠ quoteChar), body.dropWhile (· ≠ quoteChar))
    else none

def processVar (isAlphanumeric : Char → Bool) (s : Str) : Option (Str × Str) :=
  (stripPrefix processEnv s).map fun body => (body.takeWhile (nameChar isAlphanumeric), body)

variable {isAlphanumeric : Char → Bool} {opens : Str → Option (Str × Str)}
  {pattern s a v w : Str} {q : Char} {turns pos : Nat}

theorem stripPrefix_append (pattern s : Str) : stripPrefix pattern (pattern ++ s) = some s := by
  rw [stripPrefix, if_pos (List.prefix_append pattern s), List.drop_left]

theorem stripPrefix_some (h : stripPrefix pattern s = some w) : s = pattern ++ w := by
  rw [stripPrefix] at h
  split at h
  · rename_i hpre
    obtain ⟨t, rfl⟩ := hpre
    rw [← Option.some.inj h, List.drop_left]
  · cases h

theorem takeWhile_ne (hq : q ∉ w) (s : Str) : (w ++ q :: s).takeWhile (· ≠ q) = w := by
  have hw : ∀ c ∈ w, decide (c ≠ q) = true := fun c hc => decide_eq_true fun h => hq (h ▸ hc)
  rw [List.takeWhile_append_of_pos hw, List.takeWhile_cons_of_neg (by simp), List.append_nil]

theorem quotedVar_append (hq : q ∉ w) (s : Str) :
    quotedVar pattern q (pattern ++ (w ++ q :: s)) = some (w, q :: s) := by
  have hw : ∀ c ∈ w, decide (c ≠ q) = true := fun c hc => decide_eq_true fun h => hq (h ▸ hc)
  rw [quotedVar, stripPrefix_append, Option.bind_some, if_pos (by simp), takeWhile_ne hq,
    List.dropWhile_append_of_pos hw, List.dropWhile_cons_of_neg (by simp)]

theorem quotedVar_some (h : quotedVar pattern q s = some (v, w)) :
    ∃ body, s = pattern ++ body ∧ q ∈ body ∧ w <:+ body := by
  obtain ⟨body, hbody, h⟩ := Option.bind_eq_some_iff.mp h
  refine ⟨body, stripPrefix_some hbody, ?_⟩
  split at h
  · rename_i hq
    cases h
    exact ⟨hq, List.dropWhile_suffix _⟩
  · cases h

/-- Nothing opens in front of the first occurrence of what every opening starts with. -/
theorem found_first (hne : pattern ≠ []) (hopens : ∀ s, opens s ≠ none → pattern <+: s)
    (h : findByte pattern s = some pos) :
    ∃ x b, s = x ++ (pattern ++ b) ∧ byteLen x = pos ∧
      ∀ v, Found opens s v ↔ Found opens (pattern ++ b) v := by
  obtain ⟨k, hk, rfl⟩ := Option.map_eq_some_iff.mp h
  obtain ⟨x, b, rfl, rfl, hfirst⟩ := exists_of_find hne hk
  refine ⟨x, b, List.append_assoc x pattern b, ?_, fun v => ?_⟩
  · rw [List.append_assoc, List.take_left]
  · rw [List.append_assoc]
    refine found_append fun u y hx hy => ?_
    by_contra hopen
    apply hfirst
    have hpre := hopens _ hopen
    have hends : y ++ pattern.dropLast <+: y ++ (pattern ++ b) :=
      (List.prefix_append_right_inj y).mpr
        ((List.dropLast_prefix pattern).trans (List.prefix_append pattern b))
    have hlen : pattern.length ≤ (y ++ pattern.dropLast).length := by
      have := List.length_pos_of_ne_nil hy
      rw [List.length_append, List.length_dropLast]
      omega
    have hinf := (List.prefix_of_prefix_length_le hpre hends hlen).isInfix
    rw [hx, List.append_assoc]
    exact hinf.trans (List.suffix_append u _).isInfix

theorem not_found_of_findByte (hopens : ∀ s, opens s ≠ none → pattern <+: s)
    (hrest : ∀ s b rest, opens s = some (b, rest) → rest <:+ s)
    (h : findByte pattern s = none) : ¬ Found opens s v := by
  intro hfound
  obtain ⟨t, rest, ht, hv⟩ := hfound.exists_suffix hrest
  have hinf := (hopens t (by simp [hv])).isInfix.trans ht.isInfix
  exact find_eq_none_iff.mp (Option.map_eq_none_iff.mp h) hinf

theorem prefix_of_quotedVar (h : quotedVar pattern q s ≠ none) : pattern <+: s := by
  obtain ⟨⟨v, w⟩, hs⟩ := Option.ne_none_iff_exists'.mp h
  obtain ⟨body, rfl, -⟩ := quotedVar_some hs
  exact List.prefix_append pattern body

theorem suffix_of_quotedVar (h : quotedVar pattern q s = some (v, w)) : w <:+ s := by
  obtain ⟨body, rfl, -, hw⟩ := quotedVar_some h
  exact hw.trans (List.suffix_append pattern body)

/-- A variable without a name is not noted. -/
theorem mem_pushed_iff {vars : List Str} :
    v ∈ (if w = [] then vars else w :: vars) ↔ v ≠ [] ∧ v = w ∨ v ∈ vars := by
  by_cases hw : w = []
  · rw [if_pos hw, hw]
    exact (or_iff_right fun h => h.1 h.2).symm
  · rw [if_neg hw, List.mem_cons]
    exact or_congr_left ⟨fun h => ⟨h ▸ hw, h⟩, And.right⟩

/-- A loop that starts in a text behind other text finds what a pass over the text finds. -/
theorem quotedVars_spec (hne : pattern ≠ []) (hturns : byteLen s < turns) :
    ∃ vars, quotedVars (a ++ s) pattern q turns (byteLen a) = .ok vars ∧
      ∀ v, v ∈ vars ↔ v ≠ [] ∧ Found (quotedVar pattern q) s v := by
  have hopens : ∀ s, quotedVar pattern q s ≠ none → pattern <+: s := fun _ => prefix_of_quotedVar
  induction turns generalizing a s with
  | zero => exact absurd hturns (Nat.not_lt_zero _)
  | succ turns ih =>
    rw [quotedVars, rest_append, ok_bind]
    cases hpos : findByte pattern s with
    | none =>
      refine ⟨[], rfl, fun v => ?_⟩
      have hnot := not_found_of_findByte (v := v) hopens (fun _ _ _ => suffix_of_quotedVar) hpos
      simpa using fun _ => hnot
    | some pos =>
      obtain ⟨x, b, rfl, rfl, hfound⟩ := found_first hne hopens hpos
      have hrest : rest (byteLen a + byteLen x + byteLen pattern) (a ++ (x ++ (pattern ++ b))) =
          .ok b := by
        have := rest_append (a ++ x ++ pattern) b
        simpa only [byteLen_append, List.append_assoc, Nat.add_assoc] using this
      simp only [hrest, ok_bind, hfound]
      by_cases hq : q ∈ b
      · obtain ⟨w, r, rfl, hw⟩ := List.eq_append_cons_of_mem hq
        have hpart : part (byteLen a + byteLen x + byteLen pattern)
            (byteLen a + byteLen x + byteLen pattern + byteLen w)
            (a ++ (x ++ (pattern ++ (w ++ q :: r)))) = .ok w := by
          have := part_append (a ++ x ++ pattern) w (q :: r)
          simpa only [byteLen_append, List.append_assoc, Nat.add_assoc] using this
        have hnext : byteLen (q :: r) < turns := by
          simp only [byteLen_append, byteLen_cons] at hturns ⊢
          have := byteLen_pos hne
          omega
        obtain ⟨vars, hvars, hmem⟩ := ih (a := a ++ x ++ pattern ++ w) hnext
        have hloop : quotedVars (a ++ (x ++ (pattern ++ (w ++ q :: r)))) pattern q turns
            (byteLen a + byteLen x + byteLen pattern + byteLen w) = .ok vars := by
          simpa only [byteLen_append, List.append_assoc, Nat.add_assoc] using hvars
        simp only [findByte_notMem hw, hpart, ok_bind, hloop]
        refine ⟨_, rfl, fun v => ?_⟩
        rw [found_of_opens (quotedVar_append hw r), mem_pushed_iff, hmem, and_or_left]
      · simp only [findByte_notMem_none hq]
        refine ⟨[], rfl, fun v => ?_⟩
        have hnot : ¬ Found (quotedVar pattern q) (pattern ++ b) v := by
          intro h
          obtain ⟨t, r, ht, hv⟩ := h.exists_suffix fun _ _ _ => suffix_of_quotedVar
          obtain ⟨body, rfl, hqbody, -⟩ := quotedVar_some hv
          have hlen := ht.length_le
          rw [List.length_append, List.length_append] at hlen
          have hbody : body <:+ b := List.suffix_of_suffix_length_le
            ((List.suffix_append pattern body).trans ht) (List.suffix_append pattern b) (by omega)
          exact hq (hbody.subset hqbody)
        simpa using fun _ => hnot

theorem processEnv_ne : processEnv ≠ [] := by decide

theorem processVar_append (s : Str) : processVar isAlphanumeric (processEnv ++ s) =
    some (s.takeWhile (nameChar isAlphanumeric), s) := by
  rw [processVar, stripPrefix_append, Option.map_some]

theorem processVar_some (h : processVar isAlphanumeric s = some (v, w)) : s = processEnv ++ w := by
  obtain ⟨body, hbody, h⟩ := Option.map_eq_some_iff.mp h
  cases h
  exact stripPrefix_some hbody

theorem suffix_of_processVar (h : processVar isAlphanumeric s = some (v, w)) : w <:+ s := by
  rw [processVar_some h]
  exact List.suffix_append processEnv w

theorem processVars_spec (isAlphanumeric : Char → Bool) (hturns : byteLen s < turns) :
    ∃ vars, processVars isAlphanumeric (a ++ s) turns (byteLen a) = .ok vars ∧
      ∀ v, v ∈ vars ↔ v ≠ [] ∧ Found (processVar isAlphanumeric) s v := by
  have hopens : ∀ s, processVar isAlphanumeric s ≠ none → processEnv <+: s := by
    intro s h
    obtain ⟨⟨v, w⟩, hs⟩ := Option.ne_none_iff_exists'.mp h
    rw [processVar_some hs]
    exact List.prefix_append processEnv w
  induction turns generalizing a s with
  | zero => exact absurd hturns (Nat.not_lt_zero _)
  | succ turns ih =>
    rw [processVars, rest_append, ok_bind]
    cases hpos : findByte processEnv s with
    | none =>
      refine ⟨[], rfl, fun v => ?_⟩
      have hnot := not_found_of_findByte (v := v) hopens (fun _ _ _ => suffix_of_processVar) hpos
      simpa using fun _ => hnot
    | some pos =>
      obtain ⟨x, b, rfl, rfl, hfound⟩ := found_first processEnv_ne hopens hpos
      have hrest : rest (byteLen a + byteLen x + byteLen processEnv)
          (a ++ (x ++ (processEnv ++ b))) = .ok b := by
        have := rest_append (a ++ x ++ processEnv) b
        simpa only [byteLen_append, List.append_assoc, Nat.add_assoc] using this
      have hnext : byteLen b < turns := by
        simp only [byteLen_append] at hturns
        have := byteLen_pos processEnv_ne
        omega
      obtain ⟨vars, hvars, hmem⟩ := ih (a := a ++ x ++ processEnv) hnext
      have hloop : processVars isAlphanumeric (a ++ (x ++ (processEnv ++ b))) turns
          (byteLen a + byteLen x + byteLen processEnv) = .ok vars := by
        simpa only [byteLen_append, List.append_assoc, Nat.add_assoc] using hvars
      simp only [hrest, hloop, ok_bind, hfound]
      refine ⟨_, rfl, fun v => ?_⟩
      rw [found_of_opens (processVar_append b), mem_pushed_iff, hmem, and_or_left]

end Loops

section References

/-- How a variable is referred to. -/
inductive Form where
  | shell
  | quoted (pattern : Str) (quoteChar : Char)
  | process
  deriving DecidableEq

def forms : List Form := .shell :: quotedPatterns.map (fun p => .quoted p.1 p.2) ++ [.process]

variable (isAlphanumeric : Char → Bool)

/-- What is read at the beginning of a text, with the text that is left. -/
def Form.read : Form → Str → Option (Str × Str)
  | .shell => shellVar isAlphanumeric
  | .quoted pattern quoteChar => quotedVar pattern quoteChar
  | .process => processVar isAlphanumeric

def IsName (name : Str) : Prop := name ≠ [] ∧ ∀ c ∈ name, nameChar isAlphanumeric c

/-- No more of the name follows. -/
def Ended (s : Str) : Prop := ∀ c ∈ s.head?, nameChar isAlphanumeric c = false

/-- What closes the bracket of each pattern. -/
def closers : List Char := [']', ']', ')', ')']

/-- A text begins with a reference to a variable. -/
inductive Refers : Form → Str → Str → Prop
  | dollar {name s : Str} (hname : IsName isAlphanumeric name) (hend : Ended isAlphanumeric s) :
    Refers .shell ('$' :: (name ++ s)) name
  | braces {name s : Str} (hname : IsName isAlphanumeric name) :
    Refers .shell ('$' :: '\x7b' :: (name ++ '\x7d' :: s)) name
  | quoted {p : Str × Char} {close : Char} {name s : Str} (hname : IsName isAlphanumeric name)
      (hp : (p, close) ∈ quotedPatterns.zip closers) :
    Refers (.quoted p.1 p.2) (p.1 ++ (name ++ p.2 :: close :: s)) name
  | process {name s : Str} (hname : IsName isAlphanumeric name) (hend : Ended isAlphanumeric s) :
    Refers .process (processEnv ++ (name ++ s)) name

/-- Every variable that a text refers to is found in it. -/
def Complete (line : Str) : Prop :=
  ∃ vars, extractEnvVarRefs isAlphanumeric line = .ok vars ∧
    ∀ form t name, t <:+ line → Refers isAlphanumeric form t name → name ∈ vars

/-- Every reference with a dollar or quotes stands where reading the text from the left,
references taken as a whole, comes to, or its variable is read elsewhere. -/
def NoneSwallowed (line : Str) : Prop :=
  ∀ form t name, t <:+ line → Refers isAlphanumeric form t name → form ≠ .process →
    Reached (form.read isAlphanumeric) line t ∨
      ∃ other ∈ forms, Found (other.read isAlphanumeric) line name

/-- The scan of a command comes to an end without a panic, whatever the script is. -/
def NeverPanics (command : Str) : Prop :=
  ∀ toLowercase fullPath readToString, ∃ warnings,
    scanScriptForShellBleed isAlphanumeric toLowercase fullPath readToString command = .ok warnings

end References

section Reading

variable {isAlphanumeric : Char → Bool} {line name s t : Str}

theorem shellVar_brace (isAlphanumeric : Char → Bool) (s : Str) :
    shellVar isAlphanumeric ('$' :: '\x7b' :: s) =
      some (s.takeWhile (· ≠ '\x7d'), (s.dropWhile (· ≠ '\x7d')).drop 1) := rfl

theorem shellVar_dollar (isAlphanumeric : Char → Bool) (h : s.head? ≠ some '\x7b') :
    shellVar isAlphanumeric ('$' :: s) =
      some (s.takeWhile (nameChar isAlphanumeric),
        (s.dropWhile (nameChar isAlphanumeric)).drop 1) := by
  rw [shellVar]
  rintro s rfl
  exact h rfl

theorem shellVar_shrinks (v w : Str) (h : shellVar isAlphanumeric s = some (v, w)) :
    w.length < s.length := by
  unfold shellVar at h
  split at h
  · rename_i s
    cases h
    have := (List.dropWhile_suffix (l := s) (fun c => decide (c ≠ '\x7d'))).length_le
    simp only [List.length_drop, List.length_cons]
    omega
  · rename_i s _
    cases h
    have := (List.dropWhile_suffix (l := s) (nameChar isAlphanumeric)).length_le
    simp only [List.length_drop, List.length_cons]
    omega
  · cases h

theorem mem_shellVars : name ∈ shellVars isAlphanumeric line ↔
    name ≠ [] ∧ Found (shellVar isAlphanumeric) line name := by
  rw [shellVars, List.mem_filter, mem_hunt_iff (fun _ => shellVar_shrinks) (Nat.lt_succ_self _),
    and_comm, decide_eq_true_eq]

theorem mem_flatten_iff {vars : List (List Str)} {patterns : List (Str × Char)}
    (h : List.Forall₂ (fun vs p => ∀ v, v ∈ vs ↔ v ≠ [] ∧ Found (quotedVar p.1 p.2) line v) vars
      patterns) : name ∈ vars.flatten ↔
        name ≠ [] ∧ ∃ p ∈ patterns, Found (quotedVar p.1 p.2) line name := by
  induction h with
  | nil => simp
  | cons hp _ ih =>
    rw [List.flatten_cons, List.mem_append, hp, ih, List.exists_mem_cons_iff, and_or_left]

/-- The variables that are returned are those that are read, in one form or another. -/
theorem extractEnvVarRefs_spec (isAlphanumeric : Char → Bool) (line : Str) : ∃ vars,
    extractEnvVarRefs isAlphanumeric line = .ok vars ∧ ∀ name, name ∈ vars ↔
      name ≠ [] ∧ ∃ form ∈ forms, Found (form.read isAlphanumeric) line name := by
  have hpatterns : ∀ p ∈ quotedPatterns, p.1 ≠ [] := by decide
  obtain ⟨quoted, hquoted, hall⟩ := mapM_ok fun p hp =>
    quotedVars_spec (a := []) (s := line) (q := p.2) (hpatterns p hp) (Nat.lt_succ_self _)
  obtain ⟨process, hprocess, hmem⟩ :=
    processVars_spec isAlphanumeric (a := []) (s := line) (Nat.lt_succ_self _)
  refine ⟨shellVars isAlphanumeric line ++ quoted.flatten ++ process, ?_, fun name => ?_⟩
  · have hfirst : quotedPatterns.mapM (fun p => quotedVars line p.1 p.2 (byteLen line + 1) 0) =
        .ok quoted := hquoted
    have hlast : processVars isAlphanumeric line (byteLen line + 1) 0 = .ok process := hprocess
    rw [extractEnvVarRefs, hfirst, ok_bind, hlast, ok_bind]
    rfl
  · have hforms : (∃ form ∈ forms, Found (form.read isAlphanumeric) line name) ↔
        Found (shellVar isAlphanumeric) line name ∨
          (∃ p ∈ quotedPatterns, Found (quotedVar p.1 p.2) line name) ∨
            Found (processVar isAlphanumeric) line name := by simp [forms, Form.read]
    rw [hforms, List.mem_append, List.mem_append, mem_shellVars, mem_flatten_iff hall, hmem,
      ← and_or_left, ← and_or_left, or_assoc]

/-- Opening brackets, closing brackets and quotes are no part of a name. -/
def Punctuated (isAlphanumeric : Char → Bool) : Prop :=
  ∀ c ∈ ['\x7b', '\x7d', '"', '\''], isAlphanumeric c = false

theorem not_mem_name (hname : IsName isAlphanumeric name) (h : Punctuated isAlphanumeric) {c : Char}
    (hc : c ∈ ['\x7b', '\x7d', '"', '\'']) (hne : c ≠ '_') : c ∉ name := by
  intro hmem
  have := hname.2 c hmem
  rw [nameChar, h c hc, Bool.false_or, decide_eq_true_eq] at this
  exact hne this

theorem takeWhile_name (hname : IsName isAlphanumeric name) (hend : Ended isAlphanumeric s) :
    (name ++ s).takeWhile (nameChar isAlphanumeric) = name := by
  rw [List.takeWhile_append_of_pos hname.2]
  cases s with
  | nil => simp
  | cons c s => rw [List.takeWhile_cons_of_neg (by simp [hend c rfl]), List.append_nil]

theorem Refers.isName {form : Form} (href : Refers isAlphanumeric form t name) :
    IsName isAlphanumeric name := by
  cases href <;> assumption

/-- A reference at the beginning of a text is read there. -/
theorem read_of_refers (h : Punctuated isAlphanumeric) {form : Form}
    (href : Refers isAlphanumeric form t name) :
    ∃ rest, form.read isAlphanumeric t = some (name, rest) := by
  cases href with
  | dollar hname hend =>
    rename_i s
    obtain ⟨c, cs, rfl⟩ := List.exists_cons_of_ne_nil hname.1
    have hbrace : c ≠ '\x7b' := by
      rintro rfl
      exact not_mem_name hname h (by simp) (by decide) List.mem_cons_self
    have hread := shellVar_dollar isAlphanumeric (s := c :: cs ++ s)
      fun h => hbrace (Option.some.inj h)
    rw [takeWhile_name hname hend] at hread
    exact ⟨_, hread⟩
  | braces hname =>
    rename_i s
    have hclose : '\x7d' ∉ name := not_mem_name hname h (by simp) (by decide)
    have hread := shellVar_brace isAlphanumeric (name ++ '\x7d' :: s)
    rw [takeWhile_ne hclose] at hread
    exact ⟨_, hread⟩
  | quoted hname hp =>
    rename_i p close s
    have hquote : ∀ p ∈ quotedPatterns, p.2 ∈ ['\x7b', '\x7d', '"', '\''] ∧ p.2 ≠ '_' := by decide
    obtain ⟨hquote, hscore⟩ := hquote p (List.of_mem_zip hp).1
    exact ⟨_, quotedVar_append (not_mem_name hname h hquote hscore) (close :: s)⟩
  | process hname hend =>
    exact ⟨_, by rw [Form.read, processVar_append, takeWhile_name hname hend]⟩

theorem suffix_of_not_mem {c : Char} {a b : Str} (hc : c ∉ a) (h : c :: t <:+ a ++ b) :
    c :: t <:+ b := by
  induction a with
  | nil => exact h
  | cons d a ih =>
    rw [List.mem_cons, not_or] at hc
    obtain heq | hsuffix := List.suffix_cons_iff.mp h
    · exact absurd (List.cons_eq_cons.mp heq).1 hc.1
    · exact ih hc.2 hsuffix

/-- No reference to a variable of the process is swallowed by another one. -/
theorem reached_process (h : processEnv ++ s <:+ line) :
    Reached (processVar isAlphanumeric) line (processEnv ++ s) := by
  induction hn : line.length using Nat.strong_induction_on generalizing line with
  | h n ih =>
    obtain rfl | hne := eq_or_ne (processEnv ++ s) line
    · exact .here
    cases hopens : processVar isAlphanumeric line with
    | none =>
      cases line with
      | nil => exact absurd (List.suffix_nil.mp h) hne
      | cons c line =>
        have hrest := (List.suffix_cons_iff.mp h).resolve_left hne
        exact .skip hopens (ih line.length (by simp [← hn]) hrest rfl)
    | some found =>
      obtain ⟨v, body⟩ := found
      obtain rfl := processVar_some hopens
      have hrest : processEnv ++ s <:+ body := by
        have htail := (List.suffix_cons_iff.mp h).resolve_left hne
        exact suffix_of_not_mem (a := "rocess.env.".toList) (by decide) htail
      have hlen : body.length < n := by
        rw [← hn, List.length_append]
        have := List.length_pos_of_ne_nil processEnv_ne
        omega
      exact .jump hopens (ih body.length hlen hrest rfl)

variable (toLowercase : Str → Str)

theorem scanLine_ok (isAlphanumeric : Char → Bool) (file : Str) (lineNumber : Nat) (line : Str) :
    ∃ warnings, scanLine isAlphanumeric toLowercase file lineNumber line = .ok warnings := by
  rw [scanLine]
  split
  · exact ⟨[], rfl⟩
  · obtain ⟨vars, hvars, -⟩ := extractEnvVarRefs_spec isAlphanumeric line
    exact ⟨_, by rw [hvars, ok_bind]; rfl⟩

theorem scanScript_ok {command : Str} (h : splitWhitespace command ≠ []) (fullPath : Str → Str)
    (readToString : Str → Option Str) : ∃ warnings, scanScriptForShellBleed isAlphanumeric
      toLowercase fullPath readToString command = .ok warnings := by
  obtain ⟨first, parts, hparts⟩ := List.exists_cons_of_ne_nil h
  rw [scanScriptForShellBleed, extractScriptPath, hparts]
  simp only [ok_bind]
  split
  · exact ⟨[], rfl⟩
  · rename_i scriptPath _
    split
    · exact ⟨[], rfl⟩
    · rename_i content _
      split
      · exact ⟨[], rfl⟩
      · have hlines : ∀ l ∈ (lines content).zipIdx, ∃ warnings, scanLine isAlphanumeric toLowercase
            (fullPath scriptPath) (l.2 + 1) l.1 = .ok warnings ∧ True := fun l _ =>
          (scanLine_ok toLowercase isAlphanumeric (fullPath scriptPath) (l.2 + 1) l.1).imp
            fun _ hl => ⟨hl, trivial⟩
        obtain ⟨warnings, hwarnings, -⟩ := mapM_ok hlines
        exact ⟨_, by rw [hwarnings, ok_bind]; rfl⟩

/-- Only a command without a word makes the scan panic. -/
theorem neverPanics_iff (command : Str) :
    NeverPanics isAlphanumeric command ↔ splitWhitespace command ≠ [] := by
  constructor
  · intro h hnone
    obtain ⟨warnings, hscan⟩ := h id id fun _ => none
    rw [scanScriptForShellBleed, extractScriptPath, hnone] at hscan
    cases hscan
  · intro h toLowercase fullPath readToString
    exact scanScript_ok toLowercase h fullPath readToString

theorem complete_iff (h : Punctuated isAlphanumeric) (line : Str) :
    Complete isAlphanumeric line ↔ NoneSwallowed isAlphanumeric line := by
  obtain ⟨vars, hvars, hmem⟩ := extractEnvVarRefs_spec isAlphanumeric line
  have hforms : ∀ {form t name}, Refers isAlphanumeric form t name → form ∈ forms := by
    intro form t name href
    cases href with
    | dollar | braces | process => simp [forms]
    | quoted hname hp =>
      have hmem := (List.of_mem_zip hp).1
      simp only [forms, List.cons_append, List.mem_cons, List.mem_append, List.mem_map]
      exact .inr (.inl ⟨_, hmem, rfl⟩)
  constructor
  · rintro ⟨vars', hvars', hall⟩ form t name ht href -
    cases hvars.symm.trans hvars'
    exact .inr ((hmem name).mp (hall form t name ht href)).2
  · intro hnone
    refine ⟨vars, hvars, fun form t name ht href => (hmem name).mpr ?_⟩
    obtain ⟨rest, hread⟩ := read_of_refers h href
    have hform := hforms href
    refine ⟨href.isName.1, ?_⟩
    by_cases hprocess : form = .process
    · cases href with
      | process => exact ⟨.process, hform, _, rest, reached_process ht, hread⟩
      | dollar | braces | quoted => cases hprocess
    · obtain hreached | hother := hnone form t name ht href hprocess
      · exact ⟨form, hform, t, rest, hreached, hread⟩
      · exact hother

/-- The scan finds every variable that a text refers to and does not panic, exactly when no
reference is swallowed by another one and the command has a word. -/
theorem scan_complete_iff (h : Punctuated isAlphanumeric) (line command : Str) :
    Complete isAlphanumeric line ∧ NeverPanics isAlphanumeric command ↔
      NoneSwallowed isAlphanumeric line ∧ splitWhitespace command ≠ [] := by
  rw [complete_iff h, neverPanics_iff]

theorem scan_complete_ascii : Punctuated Char.isAlphanum ∧
    (Complete Char.isAlphanum ['$', 'A'] ∧ NeverPanics Char.isAlphanum ['a'] ↔
      NoneSwallowed Char.isAlphanum ['$', 'A'] ∧ splitWhitespace ['a'] ≠ []) :=
  have h : Punctuated Char.isAlphanum := by simp [Punctuated]
  ⟨h, scan_complete_iff h ['$', 'A'] ['a']⟩

/-- Of two variables with nothing in between the second one is missed, and a command without a
word makes the scan panic. -/
theorem adjacent_missed :
    ¬ (Complete Char.isAlphanum "$A$B".toList ∧ NeverPanics Char.isAlphanum []) ∧
    ¬ Complete Char.isAlphanum "$A$B".toList ∧ ¬ NeverPanics Char.isAlphanum [] := by
  have hmissed : ¬ Complete Char.isAlphanum "$A$B".toList := by
    rintro ⟨vars, hvars, hall⟩
    have hfirst : extractEnvVarRefs Char.isAlphanum "$A$B".toList = .ok [['A']] := by decide
    cases hfirst.symm.trans hvars
    have hrefers : Refers Char.isAlphanum .shell ('$' :: (['B'] ++ [])) ['B'] :=
      .dollar ⟨List.cons_ne_nil _ _, List.forall_mem_singleton.mpr rfl⟩ (by simp [Ended])
    have hmem := hall .shell ['$', 'B'] ['B'] (by decide) hrefers
    simp at hmem
  have hpanics : ¬ NeverPanics Char.isAlphanum [] := by
    rw [neverPanics_iff]
    decide
  exact ⟨fun h => hmissed h.1, hmissed, hpanics⟩

end Reading

end Clawreform.Runtime.ShellBleed
