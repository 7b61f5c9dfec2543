import Clawreform.Lib.Glob
import Clawreform.Lib.Scan
import Clawreform.Types.Capability

namespace Clawreform.Runtime.ToolAccess

open Clawreform.Lib.Text Clawreform.Lib.Find Clawreform.Lib.Scan Clawreform.Lib.Glob
open Clawreform.Lib.Wildcard Clawreform.Types

section Code

inductive PolicyEffect where
  | allow
  | deny
  deriving DecidableEq

structure ToolPolicyRule where
  pattern : Str
  effect : PolicyEffect
  deriving DecidableEq

structure ToolGroup where
  name : Str
  tools : List Str
  deriving DecidableEq

structure ToolPolicy where
  agentRules : List ToolPolicyRule := []
  globalRules : List ToolPolicyRule := []
  groups : List ToolGroup := []
  subagentMaxDepth : UInt32 := 0

inductive ToolAccessResult where
  | allowed
  | denied (rulePattern source : Str)
  | depthExceeded (current max : UInt32)
  deriving DecidableEq

def isSubagentTool (name : Str) : Bool :=
  name = "agent_spawn".toList || name = "agent_call".toList || name = "spawn_agent".toList

/-- The parts of a pattern from the left. `first` says that none was passed yet, and the text
before `pos` is used up. -/
def globParts (text : Str) : Bool → Nat → List Str → Except Stop Bool
  | _, _, [] => pure true
  | first, pos, part :: parts =>
    if part = [] then globParts text false pos parts
    else if first then
      if part <+: text then globParts text false (byteLen part) parts else pure false
    else if parts = [] then do
      let tail ← rest pos text
      if part <:+ tail then globParts text false pos parts else pure false
    else do
      let tail ← rest pos text
      match findByte part tail with
      | some found => globParts text false (pos + found + byteLen part) parts
      | none => pure false

def globMatch (pattern text : Str) : Except Stop Bool :=
  if pattern = ['*'] then pure true
  else if '*' ∉ pattern then pure (decide (pattern = text))
  else
    match pattern.splitOn '*' with
    | [before, after] => pure (decide (before <+: text) && decide (after <:+ text) &&
        decide (byteLen before + byteLen after ≤ byteLen text))
    | parts => globParts text true 0 parts

/-- The group's name once for every member pattern that matches. -/
def memberNames (toolName name : Str) : List Str → Except Stop (List Str)
  | [] => pure []
  | pattern :: tools => do
    let hit ← globMatch pattern toolName
    let names ← memberNames toolName name tools
    pure (if hit then ('@' :: name) :: names else names)

def groupNames (toolName : Str) : List ToolGroup → Except Stop (List Str)
  | [] => pure []
  | group :: groups => do
    let names ← memberNames toolName group.name group.tools
    let more ← groupNames toolName groups
    pure (names ++ more)

def expandGroups (toolName : Str) (groups : List ToolGroup) : Except Stop (List Str) := do
  let names ← groupNames toolName groups
  pure (toolName :: names)

def matchesPattern (pattern toolName : Str) (expanded : List Str) : Except Stop Bool := do
  if ← globMatch pattern toolName then pure true
  else if pattern.head? = some '@' then pure (expanded.any (· = pattern))
  else pure false

/-- The rules with an effect are asked in order, up to the first that matches. -/
def firstMatch (effect : PolicyEffect) (toolName : Str) (expanded : List Str) :
    List ToolPolicyRule → Except Stop (Option ToolPolicyRule)
  | [] => pure none
  | rule :: rules =>
    if rule.effect = effect then do
      if ← matchesPattern rule.pattern toolName expanded then pure (some rule)
      else firstMatch effect toolName expanded rules
    else firstMatch effect toolName expanded rules

def resolveToolAccess (toolName : Str) (policy : ToolPolicy) (depth : UInt32) :
    Except Stop ToolAccessResult :=
  if isSubagentTool toolName && decide (policy.subagentMaxDepth < depth) then
    pure (.depthExceeded depth policy.subagentMaxDepth)
  else do
    let expanded ← expandGroups toolName policy.groups
    match ← firstMatch .deny toolName expanded policy.agentRules with
    | some rule => pure (.denied rule.pattern "agent".toList)
    | none =>
      match ← firstMatch .deny toolName expanded policy.globalRules with
      | some rule => pure (.denied rule.pattern "global".toList)
      | none =>
        if policy.agentRules.any (fun r => r.effect = .allow) ||
            policy.globalRules.any (fun r => r.effect = .allow) then do
          let agentAllows ← firstMatch .allow toolName expanded policy.agentRules
          let globalAllows ← firstMatch .allow toolName expanded policy.globalRules
          if agentAllows.isSome || globalAllows.isSome then pure .allowed
          else pure (.denied "(not in any allow list)".toList "implicit_deny".toList)
        else pure .allowed

def subagentDenyAlways : List Str :=
  ["cron_create".toList, "cron_cancel".toList, "schedule_create".toList, "schedule_delete".toList,
    "hand_activate".toList, "hand_deactivate".toList, "process_start".toList]

def subagentDenyLeaf : List Str := ["agent_spawn".toList, "agent_kill".toList]

/-- Subtraction of naturals saturates as that of the code does. -/
def filterToolsByDepth (tools : List Str) (depth maxDepth : UInt32) : List Str :=
  if depth = 0 then tools
  else
    let isLeaf := decide (0 < maxDepth) && decide (maxDepth.toNat - 1 ≤ depth.toNat)
    tools.filter fun name =>
      if name ∈ subagentDenyAlways then false
      else if isLeaf && decide (name ∈ subagentDenyLeaf) then false
      else true

end Code

section Globs

variable {pattern text pre w part : Str} {parts : List Str} {pos : Nat}

theorem findByte_none_iff : findByte part w = none ↔ ¬ part <:+: w := by
  rw [findByte, Option.map_eq_none_iff, find_eq_none_iff]

/-- What `find` finds is the leftmost occurrence. -/
theorem exists_of_findByte_first (hne : part ≠ []) {n : Nat} (h : findByte part w = some n) :
    ∃ u v, w = u ++ (part ++ v) ∧ byteLen u = n ∧
      ∀ u' v', w = u' ++ (part ++ v') → u.length ≤ u'.length := by
  obtain ⟨k, hk, rfl⟩ := Option.map_eq_some_iff.mp h
  obtain ⟨u, v, rfl, rfl, hfirst⟩ := exists_of_find hne hk
  refine ⟨u, v, List.append_assoc u part v, ?_, fun u' v' hw => ?_⟩
  · rw [List.append_assoc, List.take_left]
  · by_contra hlt
    apply hfirst
    have hends : u ++ part.dropLast <+: u ++ part ++ v := by
      rw [List.append_assoc, List.prefix_append_right_inj]
      exact (List.dropLast_prefix part).trans (List.prefix_append part v)
    have hearly : u' ++ part <+: u ++ part ++ v := ⟨v', by rw [hw, List.append_assoc]⟩
    have hle : (u' ++ part).length ≤ (u ++ part.dropLast).length := by
      have := List.length_pos_of_ne_nil hne
      simp only [List.length_append, List.length_dropLast]
      omega
    exact (List.suffix_append u' part).isInfix.trans
      (List.prefix_of_prefix_length_le hearly hends hle).isInfix

/-- Behind the first part the loop decides whether the remaining parts stand in what is left of
the text. -/
theorem globParts_reaches (hne : parts ≠ []) :
    ∃ b, globParts (pre ++ w) false (byteLen pre) parts = .ok b ∧ (b = true ↔ Reaches parts w) := by
  induction parts generalizing pre w with
  | nil => exact absurd rfl hne
  | cons part parts ih =>
    rw [globParts]
    by_cases hpart : part = []
    · subst hpart
      rw [if_pos rfl]
      cases parts with
      | nil => exact ⟨true, rfl, iff_of_true rfl (reaches_singleton.mpr List.nil_suffix)⟩
      | cons b parts =>
        obtain ⟨d, hd, hiff⟩ := @ih pre w (List.cons_ne_nil b parts)
        refine ⟨d, hd, hiff.trans (reaches_first ?_ (List.nil_append w).symm).symm⟩
        exact fun u' v' _ => Nat.zero_le _
    · rw [if_neg hpart, if_neg Bool.false_ne_true]
      cases parts with
      | nil =>
        rw [if_pos rfl, rest_append]
        refine ⟨decide (part <:+ w), ?_, by rw [decide_eq_true_iff, reaches_singleton]⟩
        by_cases hsuffix : part <:+ w
        · exact (if_pos hsuffix).trans (congrArg Except.ok (decide_eq_true hsuffix).symm)
        · exact (if_neg hsuffix).trans (congrArg Except.ok (decide_eq_false hsuffix).symm)
      | cons b parts =>
        rw [if_neg (List.cons_ne_nil b parts), rest_append]
        show ∃ d, (match findByte part w with
          | some found =>
            globParts (pre ++ w) false (byteLen pre + found + byteLen part) (b :: parts)
          | none => pure false) = .ok d ∧ _
        cases hfind : findByte part w with
        | none =>
          refine ⟨false, rfl, iff_of_false Bool.false_ne_true fun h => ?_⟩
          obtain ⟨u, v, rfl, -⟩ := reaches_cons_cons.mp h
          exact findByte_none_iff.mp hfind ⟨u, v, List.append_assoc u part v⟩
        | some n =>
          obtain ⟨u, v, rfl, rfl, hfirst⟩ := exists_of_findByte_first hpart hfind
          obtain ⟨d, hd, hiff⟩ := @ih (pre ++ (u ++ part)) v (List.cons_ne_nil b parts)
          refine ⟨d, ?_, hiff.trans (reaches_first hfirst rfl).symm⟩
          show globParts (pre ++ (u ++ (part ++ v))) false (byteLen pre + byteLen u + byteLen part)
            (b :: parts) = .ok d
          rw [← hd, byteLen_append, byteLen_append, Nat.add_assoc, List.append_assoc,
            List.append_assoc]

theorem matches_of_notMem (h : '*' ∉ pattern) : Matches '*' pattern text ↔ text = pattern := by
  rw [matches_iff_joined, List.splitOn_eq_singleton h]
  rfl

/-- The first part has to begin the text. -/
theorem globParts_joined (hne : parts ≠ []) :
    ∃ b, globParts text true 0 (part :: parts) = .ok b ∧
      (b = true ↔ Joined (part :: parts) text) := by
  obtain ⟨second, parts, rfl⟩ := List.exists_cons_of_ne_nil hne
  rw [globParts, joined_cons_cons]
  by_cases hpart : part = []
  · subst hpart
    rw [if_pos rfl]
    obtain ⟨d, hd, hiff⟩ := @globParts_reaches [] text _ hne
    refine ⟨d, hd, hiff.trans ?_⟩
    simp only [List.nil_append, exists_eq_left']
  · rw [if_neg hpart, if_pos rfl]
    by_cases hbegins : part <+: text
    · obtain ⟨w, rfl⟩ := hbegins
      rw [if_pos (List.prefix_append part w)]
      obtain ⟨d, hd, hiff⟩ := @globParts_reaches part w _ hne
      refine ⟨d, hd, hiff.trans ?_⟩
      simp only [List.append_cancel_left_eq, exists_eq_left']
    · rw [if_neg hbegins]
      refine ⟨false, rfl, iff_of_false Bool.false_ne_true ?_⟩
      rintro ⟨w, rfl, -⟩
      exact hbegins (List.prefix_append part w)

/-- A pattern with one star is a beginning and an end that do not overlap. -/
theorem joined_pair {before after : Str} : Joined [before, after] text ↔
    before <+: text ∧ after <:+ text ∧ byteLen before + byteLen after ≤ byteLen text := by
  have hspan : Joined [before, after] text ↔ (Pattern.span before after).Mem text := by
    constructor
    · rintro ⟨m, _, rfl, rfl⟩
      exact ⟨m, rfl⟩
    · rintro ⟨m, rfl⟩
      exact ⟨m, after, rfl, rfl⟩
  rw [hspan, mem_span_iff]
  exact and_congr_right fun hb => and_congr_right fun ha => (byteLen_add_le_iff hb ha).symm

theorem globMatch_matches (pattern text : Str) :
    ∃ b, globMatch pattern text = .ok b ∧ (b = true ↔ Matches '*' pattern text) := by
  rw [globMatch]
  by_cases hall : pattern = ['*']
  · subst hall
    rw [if_pos rfl]
    have hm : Matches '*' ['*'] (text ++ []) := .star text .nil
    rw [List.append_nil] at hm
    exact ⟨true, rfl, iff_of_true rfl hm⟩
  · rw [if_neg hall]
    by_cases hstar : '*' ∈ pattern
    · rw [if_neg (not_not_intro hstar), matches_iff_joined]
      have hlength := @length_splitOn _ '*' _ pattern
      have hcount := List.count_pos_iff.mpr hstar
      match hparts : pattern.splitOn '*' with
      | [] => exact absurd hparts (List.splitOn_ne_nil '*' pattern)
      | [_] =>
        rw [hparts, List.length_singleton] at hlength
        omega
      | [before, after] =>
        refine ⟨_, rfl, ?_⟩
        rw [joined_pair, Bool.and_eq_true, Bool.and_eq_true, decide_eq_true_iff,
          decide_eq_true_iff, decide_eq_true_iff, and_assoc]
      | part :: second :: third :: parts =>
        exact globParts_joined (List.cons_ne_nil second (third :: parts))
    · rw [if_pos hstar, matches_of_notMem hstar]
      exact ⟨_, rfl, by rw [decide_eq_true_iff, eq_comm]⟩

end Globs

section Access

def ToolPolicy.rules (policy : ToolPolicy) : List ToolPolicyRule :=
  policy.agentRules ++ policy.globalRules

variable {toolName name pattern : Str} {groups : List ToolGroup} {expanded : List Str}
  {policy policy' : ToolPolicy} {depth : UInt32} {rule : ToolPolicyRule}
  {rules : List ToolPolicyRule} {effect : PolicyEffect}

/-- A pattern names a tool by glob, or as a group with a member pattern that matches. -/
def Names (groups : List ToolGroup) (pattern toolName : Str) : Prop :=
  Matches '*' pattern toolName ∨ ∃ group ∈ groups, pattern = '@' :: group.name ∧
    ∃ member ∈ group.tools, Matches '*' member toolName

/-- The call of a sub-agent tool below the deepest level. -/
def TooDeep (toolName : Str) (policy : ToolPolicy) (depth : UInt32) : Prop :=
  isSubagentTool toolName = true ∧ policy.subagentMaxDepth < depth

/-- One policy is another one with a rule put somewhere into one of its two lists. -/
inductive Adds (rule : ToolPolicyRule) (policy : ToolPolicy) : ToolPolicy → Prop where
  | agent {before after : List ToolPolicyRule} (h : policy.agentRules = before ++ after) :
      Adds rule policy { policy with agentRules := before ++ rule :: after }
  | global {before after : List ToolPolicyRule} (h : policy.globalRules = before ++ after) :
      Adds rule policy { policy with globalRules := before ++ rule :: after }

theorem memberNames_mem (toolName name : Str) (tools : List Str) :
    ∃ names, memberNames toolName name tools = .ok names ∧
      ∀ e, e ∈ names ↔ e = '@' :: name ∧ ∃ member ∈ tools, Matches '*' member toolName := by
  induction tools with
  | nil => exact ⟨[], rfl, by simp⟩
  | cons member tools ih =>
    obtain ⟨b, hb, hiff⟩ := globMatch_matches member toolName
    obtain ⟨names, hnames, hmem⟩ := ih
    refine ⟨if b then ('@' :: name) :: names else names, ?_, fun e => ?_⟩
    · rw [memberNames, hb, hnames]
      rfl
    · cases b with
      | true =>
        have hm := hiff.mp rfl
        simp only [if_true, List.mem_cons, hmem, exists_eq_or_imp, hm, true_or, and_true]
        exact ⟨fun h => h.elim id And.left, Or.inl⟩
      | false =>
        have hm : ¬ Matches '*' member toolName := fun h => Bool.false_ne_true (hiff.mpr h)
        simp only [Bool.false_eq_true, if_false, hmem, List.mem_cons, exists_eq_or_imp, hm,
          false_or]

theorem groupNames_mem (toolName : Str) (groups : List ToolGroup) :
    ∃ names, groupNames toolName groups = .ok names ∧
      ∀ e, e ∈ names ↔ ∃ group ∈ groups, e = '@' :: group.name ∧
        ∃ member ∈ group.tools, Matches '*' member toolName := by
  induction groups with
  | nil => exact ⟨[], rfl, by simp⟩
  | cons group groups ih =>
    obtain ⟨names, hnames, hmem⟩ := memberNames_mem toolName group.name group.tools
    obtain ⟨more, hmore, hmem'⟩ := ih
    refine ⟨names ++ more, ?_, fun e => ?_⟩
    · rw [groupNames, hnames, hmore]
      rfl
    · rw [List.mem_append, hmem, hmem']
      simp only [List.mem_cons, exists_eq_or_imp]

/-- The tool's own name among the expanded ones adds nothing: a pattern matches itself. -/
theorem matches_self (pattern : Str) : Matches '*' pattern pattern := by
  induction pattern with
  | nil => exact .nil
  | cons c pattern ih =>
    by_cases hc : c = '*'
    · subst hc
      exact .star ['*'] ih
    · exact .letter hc ih

/-- The names a tool goes by decide its rules. -/
def Decides (groups : List ToolGroup) (toolName : Str) (expanded : List Str) : Prop :=
  ∀ pattern, ∃ b, matchesPattern pattern toolName expanded = .ok b ∧
    (b = true ↔ Names groups pattern toolName)

theorem expandGroups_decides (toolName : Str) (groups : List ToolGroup) :
    ∃ expanded, expandGroups toolName groups = .ok expanded ∧
      Decides groups toolName expanded := by
  obtain ⟨names, hnames, hmem⟩ := groupNames_mem toolName groups
  refine ⟨toolName :: names, by rw [expandGroups, hnames]; rfl, fun pattern => ?_⟩
  obtain ⟨b, hb, hiff⟩ := globMatch_matches pattern toolName
  rw [matchesPattern, hb]
  cases b with
  | true => exact ⟨true, rfl, iff_of_true rfl (.inl (hiff.mp rfl))⟩
  | false =>
    have hm : ¬ Matches '*' pattern toolName := fun h => Bool.false_ne_true (hiff.mpr h)
    have hne : toolName ≠ pattern := by
      rintro rfl
      exact hm (matches_self toolName)
    have hnamed : Names groups pattern toolName ↔ pattern ∈ names := by
      rw [Names, hmem]
      exact or_iff_right hm
    by_cases hat : pattern.head? = some '@'
    · refine ⟨(toolName :: names).any (· = pattern), if_pos hat, ?_⟩
      rw [hnamed]
      simp [hne]
    · refine ⟨false, if_neg hat, iff_of_false Bool.false_ne_true fun h => hat ?_⟩
      obtain ⟨group, -, rfl, -⟩ := (hmem pattern).mp (hnamed.mp h)
      rfl

theorem firstMatch_none (hdecides : Decides groups toolName expanded) (effect : PolicyEffect)
    (rules : List ToolPolicyRule) : ∃ r, firstMatch effect toolName expanded rules = .ok r ∧
      (r = none ↔ ∀ rule ∈ rules, rule.effect = effect → ¬ Names groups rule.pattern toolName) := by
  induction rules with
  | nil => exact ⟨none, rfl, iff_of_true rfl fun _ h => absurd h List.not_mem_nil⟩
  | cons rule rules ih =>
    rw [List.forall_mem_cons, firstMatch]
    by_cases heffect : rule.effect = effect
    · rw [if_pos heffect]
      obtain ⟨b, hb, hiff⟩ := hdecides rule.pattern
      rw [hb]
      cases b with
      | true =>
        exact ⟨some rule, rfl, iff_of_false nofun fun h => h.1 heffect (hiff.mp rfl)⟩
      | false =>
        obtain ⟨r, hr, hnone⟩ := ih
        refine ⟨r, hr, hnone.trans (iff_and_self.mpr fun _ _ h => ?_)⟩
        exact Bool.false_ne_true (hiff.mpr h)
    · rw [if_neg heffect]
      obtain ⟨r, hr, hnone⟩ := ih
      exact ⟨r, hr, hnone.trans (iff_and_self.mpr fun _ h => absurd h heffect)⟩

/-- No deny rule names the tool. -/
def Spared (policy : ToolPolicy) (toolName : Str) : Prop :=
  ∀ rule ∈ policy.rules, rule.effect = .deny → ¬ Names policy.groups rule.pattern toolName

/-- There are no allow rules, or one of them names the tool. -/
def Listed (policy : ToolPolicy) (toolName : Str) : Prop :=
  (∀ rule ∈ policy.rules, rule.effect ≠ .allow) ∨
    ∃ rule ∈ policy.rules, rule.effect = .allow ∧ Names policy.groups rule.pattern toolName

theorem resolveToolAccess_result (toolName : Str) (policy : ToolPolicy) (depth : UInt32) :
    ∃ r, resolveToolAccess toolName policy depth = .ok r ∧
      (r = .allowed ↔ ¬ TooDeep toolName policy depth ∧ Spared policy toolName ∧
        Listed policy toolName) := by
  rw [resolveToolAccess]
  by_cases hdeep : TooDeep toolName policy depth
  · refine ⟨_, if_pos ?_, iff_of_false nofun fun h => h.1 hdeep⟩
    rw [Bool.and_eq_true, decide_eq_true_iff]
    exact hdeep
  · rw [if_neg (by rw [Bool.and_eq_true, decide_eq_true_iff]; exact hdeep)]
    obtain ⟨expanded, hexpanded, hdecides⟩ := expandGroups_decides toolName policy.groups
    obtain ⟨r, hr, hagent⟩ := firstMatch_none hdecides .deny policy.agentRules
    obtain ⟨r', hr', hglobal⟩ := firstMatch_none hdecides .deny policy.globalRules
    have hspared : Spared policy toolName ↔ r = none ∧ r' = none := by
      rw [Spared, ToolPolicy.rules, List.forall_mem_append, hagent, hglobal]
    rw [hspared, hexpanded, ok_bind, hr, ok_bind]
    cases r with
    | some rule => exact ⟨_, rfl, iff_of_false nofun fun h => nomatch h.2.1.1⟩
    | none =>
      show ∃ x, (firstMatch .deny toolName expanded policy.globalRules >>= _) = .ok x ∧ _
      rw [hr', ok_bind]
      cases r' with
      | some rule => exact ⟨_, rfl, iff_of_false nofun fun h => nomatch h.2.1.2⟩
      | none =>
        have hsilent : (policy.agentRules.any (fun r => r.effect = .allow) ||
            policy.globalRules.any (fun r => r.effect = .allow)) = true ↔
            ∃ rule ∈ policy.rules, rule.effect = .allow := by
          rw [ToolPolicy.rules, ← List.any_append, List.any_eq_true]
          simp only [decide_eq_true_eq]
        by_cases hallow : ∃ rule ∈ policy.rules, rule.effect = .allow
        · obtain ⟨a, ha, hagent⟩ := firstMatch_none hdecides .allow policy.agentRules
          obtain ⟨g, hg, hglobal⟩ := firstMatch_none hdecides .allow policy.globalRules
          have hlisted : Listed policy toolName ↔ ¬ (a = none ∧ g = none) := by
            have hsome : ¬ ∀ rule ∈ policy.rules, rule.effect ≠ .allow := by
              simpa using hallow
            rw [Listed, or_iff_right hsome, hagent, hglobal, ← List.forall_mem_append]
            simp [ToolPolicy.rules]
          rw [hlisted]
          dsimp only
          rw [if_pos (hsilent.mpr hallow), ha, ok_bind, hg, ok_bind]
          cases a with
          | some rule => exact ⟨_, rfl, iff_of_true rfl ⟨hdeep, ⟨rfl, rfl⟩, nofun⟩⟩
          | none =>
            cases g with
            | some rule => exact ⟨_, rfl, iff_of_true rfl ⟨hdeep, ⟨rfl, rfl⟩, nofun⟩⟩
            | none => exact ⟨_, rfl, iff_of_false nofun fun h => h.2.2 ⟨rfl, rfl⟩⟩
        · refine ⟨_, if_neg (mt hsilent.mp hallow), iff_of_true rfl ⟨hdeep, ⟨rfl, rfl⟩, .inl ?_⟩⟩
          exact fun rule hrule heffect => hallow ⟨rule, hrule, heffect⟩

theorem allowed_iff : resolveToolAccess toolName policy depth = .ok .allowed ↔
    ¬ TooDeep toolName policy depth ∧ Spared policy toolName ∧ Listed policy toolName := by
  obtain ⟨r, hr, hiff⟩ := resolveToolAccess_result toolName policy depth
  rw [hr, ← hiff, Except.ok.injEq]

theorem Adds.mem_rules (h : Adds rule policy policy') (other : ToolPolicyRule) :
    other ∈ policy'.rules ↔ other = rule ∨ other ∈ policy.rules := by
  cases h with
  | agent h | global h =>
    simp only [ToolPolicy.rules, h, List.mem_append, List.mem_cons]
    tauto

/-- A deny rule more only takes tools away. -/
theorem Adds.allowed (h : Adds rule policy policy') (hdeny : rule.effect = .deny)
    (hallowed : resolveToolAccess toolName policy' depth = .ok .allowed) :
    resolveToolAccess toolName policy depth = .ok .allowed := by
  have hgroups : policy'.groups = policy.groups := by cases h <;> rfl
  have hmax : policy'.subagentMaxDepth = policy.subagentMaxDepth := by cases h <;> rfl
  rw [allowed_iff] at hallowed ⊢
  obtain ⟨hdeep, hspared, hlisted⟩ := hallowed
  refine ⟨?_, fun other hother heffect => ?_, ?_⟩
  · rwa [TooDeep, hmax] at hdeep
  · rw [← hgroups]
    exact hspared other ((h.mem_rules other).mpr (.inr hother)) heffect
  · obtain hnone | ⟨other, hother, heffect, hnames⟩ := hlisted
    · exact .inl fun other hother => hnone other ((h.mem_rules other).mpr (.inr hother))
    · refine .inr ⟨other, ((h.mem_rules other).mp hother).resolve_left ?_, heffect, ?_⟩
      · rintro rfl
        rw [hdeny] at heffect
        cases heffect
      · rwa [hgroups] at hnames

/-- A tool is allowed exactly when it is not called too deep, no deny rule names it and the allow
rules, if there are any, list it. So a further deny rule never lets a rejected tool through. -/
theorem resolveToolAccess_allowed (toolName : Str) (policy : ToolPolicy) (depth : UInt32) :
    (∃ r, resolveToolAccess toolName policy depth = .ok r) ∧
      (resolveToolAccess toolName policy depth = .ok .allowed ↔
        ¬ TooDeep toolName policy depth ∧ Spared policy toolName ∧ Listed policy toolName) ∧
      ∀ rule policy', rule.effect = .deny → Adds rule policy policy' →
        resolveToolAccess toolName policy depth ≠ .ok .allowed →
        resolveToolAccess toolName policy' depth ≠ .ok .allowed := by
  refine ⟨?_, allowed_iff, fun rule policy' hdeny h hrejected hallowed => ?_⟩
  · obtain ⟨r, hr, -⟩ := resolveToolAccess_result toolName policy depth
    exact ⟨r, hr⟩
  · exact hrejected (h.allowed hdeny hallowed)

end Access

section Depth

variable {tools : List Str} {name : Str} {depth maxDepth : UInt32}

theorem filterToolsByDepth_sublist (tools : List Str) (depth maxDepth : UInt32) :
    (filterToolsByDepth tools depth maxDepth).Sublist tools := by
  rw [filterToolsByDepth]
  split
  · exact List.Sublist.refl tools
  · exact List.filter_sublist

/-- Deeper down fewer tools are left. -/
theorem filterToolsByDepth_mono {shallow deep : UInt32} (hle : shallow ≤ deep)
    (hmem : name ∈ filterToolsByDepth tools deep maxDepth) :
    name ∈ filterToolsByDepth tools shallow maxDepth := by
  have hname := (filterToolsByDepth_sublist tools deep maxDepth).subset hmem
  rw [filterToolsByDepth] at hmem ⊢
  by_cases hshallow : shallow = 0
  · rwa [if_pos hshallow]
  · have hdeep : deep ≠ 0 := by
      rintro rfl
      exact hshallow (UInt32.le_antisymm hle (UInt32.zero_le))
    rw [if_neg hdeep, List.mem_filter] at hmem
    rw [if_neg hshallow, List.mem_filter]
    refine ⟨hname, ?_⟩
    have hkept := hmem.2
    have hnat : shallow.toNat ≤ deep.toNat := hle
    split at hkept
    · exact absurd hkept Bool.false_ne_true
    · rename_i halways
      rw [if_neg halways]
      split at hkept
      · exact absurd hkept Bool.false_ne_true
      · rename_i hleaf
        rw [if_neg]
        intro h
        apply hleaf
        simp only [Bool.and_eq_true, decide_eq_true_eq] at h ⊢
        exact ⟨⟨h.1.1, by omega⟩, h.2⟩

end Depth

end Clawreform.Runtime.ToolAccess
