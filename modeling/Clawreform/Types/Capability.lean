import Mathlib.Data.Fintype.Card
import Clawreform.Lib.Text
import Clawreform.Lib.Glob
import Clawreform.Lib.Binary64

namespace Clawreform.Types

open Clawreform.Lib Clawreform.Lib.Text Clawreform.Lib.Wildcard

inductive Capability
  | fileRead (pattern : Str)
  | fileWrite (pattern : Str)
  | netConnect (pattern : Str)
  | netListen (port : UInt16)
  | toolInvoke (id : Str)
  | toolAll
  | llmQuery (pattern : Str)
  | llmMaxTokens (max : UInt64)
  | agentSpawn
  | agentMessage (pattern : Str)
  | agentKill (pattern : Str)
  | memoryRead (pattern : Str)
  | memoryWrite (pattern : Str)
  | shellExec (pattern : Str)
  | envRead (pattern : Str)
  | ofpDiscover
  | ofpConnect (pattern : Str)
  | ofpAdvertise
  | econSpend (max : Binary64)
  | econEarn
  | econTransfer (pattern : Str)
  deriving DecidableEq

/-- The branches are tried in the order of the source: the whole pattern `*`,
equality, a leading star, a trailing star, the first star inside. -/
def globMatches (pattern value : Str) : Bool :=
  if pattern = ['*'] then true
  else if pattern = value then true
  else if pattern.head? = some '*' then decide (pattern.tail <:+ value)
  else if pattern.getLast? = some '*' then decide (pattern.dropLast <+: value)
  else if '*' ∈ pattern then
    let before := pattern.takeWhile (· ≠ '*')
    let after := (pattern.dropWhile (· ≠ '*')).tail
    decide (before <+: value) && decide (after <:+ value) &&
      decide (byteLen before + byteLen after ≤ byteLen value)
  else false

@[grind =] def capabilityMatches : Capability → Capability → Bool
  | .toolAll, .toolInvoke _ => true
  | .fileRead pattern, .fileRead path => globMatches pattern path
  | .fileWrite pattern, .fileWrite path => globMatches pattern path
  | .netConnect pattern, .netConnect host => globMatches pattern host
  | .toolInvoke grantedId, .toolInvoke requiredId => grantedId = requiredId || grantedId = ['*']
  | .llmQuery pattern, .llmQuery model => globMatches pattern model
  | .agentMessage pattern, .agentMessage target => globMatches pattern target
  | .agentKill pattern, .agentKill target => globMatches pattern target
  | .memoryRead pattern, .memoryRead scope => globMatches pattern scope
  | .memoryWrite pattern, .memoryWrite scope => globMatches pattern scope
  | .shellExec pattern, .shellExec cmd => globMatches pattern cmd
  | .envRead pattern, .envRead var => globMatches pattern var
  | .ofpConnect pattern, .ofpConnect peer => globMatches pattern peer
  | .econTransfer pattern, .econTransfer target => globMatches pattern target
  | .agentSpawn, .agentSpawn => true
  | .ofpDiscover, .ofpDiscover => true
  | .ofpAdvertise, .ofpAdvertise => true
  | .econEarn, .econEarn => true
  | .netListen grantedPort, .netListen requiredPort => grantedPort = requiredPort
  | .llmMaxTokens grantedMax, .llmMaxTokens requiredMax => grantedMax ≥ requiredMax
  | .econSpend grantedMax, .econSpend requiredAmount => grantedMax.ge requiredAmount
  | _, _ => false

/-- `debug` is the derived `Debug` rendering of a capability. -/
def validateCapabilityInheritance (debug : Capability → Str) (parentCaps : List Capability) :
    List Capability → Except Str Unit
  | [] => .ok ()
  | childCap :: rest =>
    let isCovered := parentCaps.any (fun parentCap => capabilityMatches parentCap childCap)
    if isCovered then validateCapabilityInheritance debug parentCaps rest
    else .error ("Privilege escalation denied: child requests ".toList ++ debug childCap ++
      " but parent does not have a matching grant".toList)

theorem validateCapabilityInheritance_ok_iff (debug : Capability → Str)
    (parentCaps childCaps : List Capability) :
    validateCapabilityInheritance debug parentCaps childCaps = .ok () ↔
      ∀ c ∈ childCaps, ∃ p ∈ parentCaps, capabilityMatches p c = true := by
  induction childCaps with
  | nil => simp [validateCapabilityInheritance]
  | cons c cs ih =>
    simp only [validateCapabilityInheritance, List.any_eq_true, List.forall_mem_cons]
    split
    · next h => exact ih.trans ⟨fun hs => ⟨h, hs⟩, fun hs => hs.2⟩
    · next h => exact ⟨nofun, fun hs => absurd hs.1 h⟩

/-- The set of values a pattern stands for: only its first star counts, and a
star at either end takes precedence. -/
def globPattern (pattern : Str) : Pattern Char :=
  if pattern.head? = some '*' then .span [] pattern.tail
  else if pattern.getLast? = some '*' then .span pattern.dropLast []
  else if '*' ∈ pattern then
    .span (pattern.takeWhile (· ≠ '*')) (pattern.dropWhile (· ≠ '*')).tail
  else .literal pattern

theorem takeWhile_star_dropWhile {pattern : Str} (h : '*' ∈ pattern) :
    pattern = pattern.takeWhile (· ≠ '*') ++ '*' :: (pattern.dropWhile (· ≠ '*')).tail := by
  induction pattern with
  | nil => simp at h
  | cons c cs ih =>
    by_cases hc : c = '*'
    · simp [hc]
    · have hcs : '*' ∈ cs := (List.mem_cons.mp h).resolve_left (Ne.symm hc)
      simpa [hc] using ih hcs

theorem byteLen_pos_of_ne_nil {s : Str} (h : s ≠ []) : 0 < byteLen s := by
  cases s with
  | nil => exact absurd rfl h
  | cons c s =>
    have := Char.utf8Size_pos c
    rw [byteLen_cons]
    omega

/-- Two ends of a value that overlap are longer together than the value, in
characters as in bytes. -/
theorem byteLen_add_le_iff {a b w : Str} (ha : a <+: w) (hb : b <:+ w) :
    byteLen a + byteLen b ≤ byteLen w ↔ a.length + b.length ≤ w.length := by
  obtain ⟨t, rfl⟩ := ha
  rcases Nat.lt_or_ge t.length b.length with hlt | hge
  · obtain ⟨u, rfl⟩ : t <:+ b := List.suffix_of_suffix_length_le ⟨a, rfl⟩ hb hlt.le
    have hu : u ≠ [] := by
      rintro rfl
      simp at hlt
    have := byteLen_pos_of_ne_nil hu
    have := List.length_pos_of_ne_nil hu
    simp only [byteLen_append, List.length_append]
    omega
  · obtain ⟨u, rfl⟩ : b <:+ t := List.suffix_of_suffix_length_le hb ⟨a, rfl⟩ hge
    simp only [byteLen_append, List.length_append]
    omega

theorem mem_span_nil_left (b w : Str) : (Pattern.span [] b).Mem w ↔ b <:+ w := by
  rw [mem_span_iff]
  exact ⟨fun h => h.2.1, fun h => ⟨List.nil_prefix, h, by simpa using h.length_le⟩⟩

theorem mem_span_nil_right (a w : Str) : (Pattern.span a []).Mem w ↔ a <+: w := by
  rw [mem_span_iff]
  exact ⟨fun h => h.1, fun h => ⟨h, List.nil_suffix, by simpa using h.length_le⟩⟩

theorem mem_globPattern_self (pattern : Str) : (globPattern pattern).Mem pattern := by
  unfold globPattern
  split
  · rw [mem_span_nil_left]
    exact List.tail_suffix pattern
  · split
    · rw [mem_span_nil_right]
      exact List.dropLast_prefix pattern
    · split
      · next h => exact ⟨['*'], by simpa using takeWhile_star_dropWhile h⟩
      · rfl

theorem globMatches_iff (pattern value : Str) :
    globMatches pattern value = true ↔ (globPattern pattern).Mem value := by
  by_cases hstar : pattern = ['*']
  · subst hstar
    simp [globMatches, globPattern, mem_span_nil_left]
  by_cases heq : pattern = value
  · subst heq
    simp [globMatches, mem_globPattern_self]
  simp only [globMatches, hstar, heq, ↓reduceIte, globPattern]
  split
  · rw [mem_span_nil_left, decide_eq_true_iff]
  · split
    · rw [mem_span_nil_right, decide_eq_true_iff]
    · split
      · rw [mem_span_iff, Bool.and_eq_true, Bool.and_eq_true, decide_eq_true_iff,
          decide_eq_true_iff, decide_eq_true_iff, and_assoc]
        exact and_congr_right fun ha => and_congr_right fun hb => byteLen_add_le_iff ha hb
      · simp only [Bool.false_eq_true, Pattern.Mem, false_iff]
        exact fun h => heq h.symm

/-- The variants that carry a pattern. -/
inductive GlobKind
  | fileRead | fileWrite | netConnect | llmQuery | agentMessage | agentKill | memoryRead
  | memoryWrite | shellExec | envRead | ofpConnect | econTransfer
  deriving DecidableEq

def GlobKind.capability : GlobKind → Str → Capability
  | .fileRead => .fileRead
  | .fileWrite => .fileWrite
  | .netConnect => .netConnect
  | .llmQuery => .llmQuery
  | .agentMessage => .agentMessage
  | .agentKill => .agentKill
  | .memoryRead => .memoryRead
  | .memoryWrite => .memoryWrite
  | .shellExec => .shellExec
  | .envRead => .envRead
  | .ofpConnect => .ofpConnect
  | .econTransfer => .econTransfer

def Capability.globPart : Capability → Option (GlobKind × Str)
  | .fileRead s => some (.fileRead, s)
  | .fileWrite s => some (.fileWrite, s)
  | .netConnect s => some (.netConnect, s)
  | .llmQuery s => some (.llmQuery, s)
  | .agentMessage s => some (.agentMessage, s)
  | .agentKill s => some (.agentKill, s)
  | .memoryRead s => some (.memoryRead, s)
  | .memoryWrite s => some (.memoryWrite, s)
  | .shellExec s => some (.shellExec, s)
  | .envRead s => some (.envRead, s)
  | .ofpConnect s => some (.ofpConnect, s)
  | .econTransfer s => some (.econTransfer, s)
  | _ => none

@[simp] theorem globPart_capability (k : GlobKind) (s : Str) :
    (k.capability s).globPart = some (k, s) := by
  cases k <;> rfl

theorem globPart_eq_some {c : Capability} {k : GlobKind} {s : Str} :
    c.globPart = some (k, s) ↔ c = k.capability s := by
  constructor
  · intro h
    cases c <;> simp only [Capability.globPart, Option.some.injEq, Prod.mk.injEq, reduceCtorEq] at h
    all_goals obtain ⟨rfl, rfl⟩ := h; rfl
  · rintro rfl
    exact globPart_capability k s

theorem capabilityMatches_capability (k l : GlobKind) (a b : Str) :
    capabilityMatches (k.capability a) (l.capability b) = (decide (k = l) && globMatches a b) := by
  cases k <;> cases l <;> simp [GlobKind.capability, capabilityMatches]

/-- A pattern variant is comparable with its own variant only. -/
theorem capabilityMatches_glob_iff {p c : Capability} {k : GlobKind} {a : Str}
    (hp : p.globPart = some (k, a)) :
    capabilityMatches p c = true ↔ ∃ b, c.globPart = some (k, b) ∧ globMatches a b = true := by
  obtain rfl := globPart_eq_some.mp hp
  cases hc : c.globPart with
  | none =>
    simp only [reduceCtorEq, false_and, exists_false, iff_false]
    cases k <;> cases c <;> simp_all [GlobKind.capability, capabilityMatches, Capability.globPart]
  | some lb =>
    obtain ⟨l, b⟩ := lb
    obtain rfl := globPart_eq_some.mp hc
    rw [capabilityMatches_capability, Bool.and_eq_true, decide_eq_true_iff]
    constructor
    · rintro ⟨rfl, h⟩
      exact ⟨b, rfl, h⟩
    · rintro ⟨b', hb, h⟩
      simp only [Option.some.injEq, Prod.mk.injEq] at hb
      obtain ⟨rfl, rfl⟩ := hb
      exact ⟨rfl, h⟩

theorem capabilityMatches_plain_trans {p c r : Capability} (hp : p.globPart = none)
    (hpc : capabilityMatches p c = true) (hcr : capabilityMatches c r = true) :
    capabilityMatches p r = true := by
  cases p <;> cases c <;> simp only [capabilityMatches, Capability.globPart, reduceCtorEq,
    Bool.false_eq_true] at hp hpc <;>
    cases r <;> simp only [capabilityMatches, Bool.false_eq_true, decide_eq_true_eq,
      Bool.or_eq_true] at hpc hcr ⊢
  case netListen.netListen.netListen => exact hpc.trans hcr
  case toolInvoke.toolInvoke.toolInvoke =>
    rcases hpc with rfl | h
    · exact hcr
    · exact .inr h
  case llmMaxTokens.llmMaxTokens.llmMaxTokens => exact UInt64.le_trans hcr hpc
  case econSpend.econSpend.econSpend => exact Binary64.ge_trans hpc hcr

/-- A grant whose fixed text is part of the fixed text of the other: the prefix
before the first star begins the other's, the suffix after it ends the other's.
Variants without a pattern are compared as they are matched. -/
def Capability.Covers (p c : Capability) : Prop :=
  match p.globPart, c.globPart with
  | some (k, a), some (l, b) => k = l ∧ (globPattern a).Covers (globPattern b)
  | _, _ => capabilityMatches p c = true

theorem covers_plain {p : Capability} (hp : p.globPart = none) (c : Capability) :
    p.Covers c ↔ capabilityMatches p c = true := by
  simp [Capability.Covers, hp]

theorem covers_glob {p c : Capability} {k l : GlobKind} {a b : Str} (hp : p.globPart = some (k, a))
    (hc : c.globPart = some (l, b)) :
    p.Covers c ↔ k = l ∧ (globPattern a).Covers (globPattern b) := by
  simp [Capability.Covers, hp, hc]

theorem Capability.Covers.matches_of_matches {p c r : Capability} (h : p.Covers c)
    (hcr : capabilityMatches c r = true) : capabilityMatches p r = true := by
  cases hp : p.globPart with
  | none => exact capabilityMatches_plain_trans hp ((covers_plain hp c).mp h) hcr
  | some ka =>
    obtain ⟨k, a⟩ := ka
    cases hc : c.globPart with
    | none =>
      have hpc : capabilityMatches p c = true := by simpa [Capability.Covers, hp, hc] using h
      obtain ⟨b, hb, -⟩ := (capabilityMatches_glob_iff hp).mp hpc
      rw [hc] at hb
      cases hb
    | some lb =>
      obtain ⟨l, b⟩ := lb
      obtain ⟨rfl, hab⟩ := (covers_glob hp hc).mp h
      obtain ⟨w, hr, hw⟩ := (capabilityMatches_glob_iff hc).mp hcr
      exact (capabilityMatches_glob_iff hp).mpr
        ⟨w, hr, (globMatches_iff a w).mpr (hab.mem ((globMatches_iff b w).mp hw))⟩

/-- Every required capability one of `granted` allows is allowed by one of `limits`. -/
def NoEscalation (limits granted : List Capability) : Prop :=
  ∀ required, (∃ c ∈ granted, capabilityMatches c required = true) →
    ∃ p ∈ limits, capabilityMatches p required = true

theorem noEscalation_of_covers {parentCaps childCaps : List Capability}
    (h : ∀ c ∈ childCaps, ∃ p ∈ parentCaps, p.Covers c) : NoEscalation parentCaps childCaps := by
  rintro required ⟨c, hc, hcr⟩
  obtain ⟨p, hp, hpc⟩ := h c hc
  exact ⟨p, hp, hpc.matches_of_matches hcr⟩

theorem exists_fresh_char (used : List Char) (h : used.length < 0xD800) : ∃ x, x ∉ used := by
  let letter : Fin 0xD800 → Char := fun i => Char.ofNatAux i (.inl i.isLt)
  have hinj : Function.Injective letter := fun i j hij => Fin.ext (congrArg Char.toNat hij)
  by_contra hall
  have hsub : Finset.univ.image letter ⊆ used.toFinset := by
    intro x _
    rw [List.mem_toFinset]
    by_contra hx
    exact hall ⟨x, hx⟩
  have hcard := Finset.card_le_card hsub
  rw [Finset.card_image_of_injective _ hinj, Finset.card_univ, Fintype.card_fin] at hcard
  have := List.toFinset_card_le used
  omega

/-- The patterns of one variant in a list of grants. -/
def patternsOf (k : GlobKind) (caps : List Capability) : List (Pattern Char) :=
  caps.filterMap (fun p => match p.globPart with
    | some (l, a) => if l = k then some (globPattern a) else none
    | none => none)

theorem mem_patternsOf {k : GlobKind} {caps : List Capability} {q : Pattern Char} :
    q ∈ patternsOf k caps ↔ ∃ p ∈ caps, ∃ a, p.globPart = some (k, a) ∧ globPattern a = q := by
  simp only [patternsOf, List.mem_filterMap]
  refine exists_congr fun p => and_congr_right fun _ => ?_
  cases p.globPart with
  | none => simp
  | some lb =>
    obtain ⟨l, b⟩ := lb
    by_cases hl : l = k <;> simp [hl]

/-- An accepted child that no parent covers grants something no parent grants. -/
theorem exists_escalation {parentCaps : List Capability} (hlen : parentCaps.length < 0xD800)
    {c : Capability} (hc : ∃ p ∈ parentCaps, capabilityMatches p c = true)
    (huncovered : ∀ p ∈ parentCaps, ¬ p.Covers c) :
    ∃ required, capabilityMatches c required = true ∧
      ∀ p ∈ parentCaps, capabilityMatches p required = false := by
  obtain ⟨p₀, hp₀, hm₀⟩ := hc
  have hnc := huncovered p₀ hp₀
  cases hg : p₀.globPart with
  | none => exact absurd ((covers_plain hg c).mpr hm₀) hnc
  | some ka =>
    obtain ⟨k, a⟩ := ka
    obtain ⟨b, hb, hab⟩ := (capabilityMatches_glob_iff hg).mp hm₀
    cases hpat : globPattern b with
    | literal w =>
      have hbw : b = w := by simpa [hpat, Pattern.Mem] using mem_globPattern_self b
      refine absurd ((covers_glob hg hb).mpr ⟨rfl, ?_⟩) hnc
      rw [hpat, ← hbw]
      exact (globMatches_iff a b).mp hab
    | span x y =>
      have hnone : ∀ q ∈ patternsOf k parentCaps, ¬ q.Covers (.span x y) := by
        intro q hq hcov
        obtain ⟨p, hp, a', ha', rfl⟩ := mem_patternsOf.mp hq
        refine huncovered p hp ((covers_glob ha' hb).mpr ⟨rfl, ?_⟩)
        rwa [hpat]
      have hshort : ((patternsOf k parentCaps).filterMap (guess x y)).length < 0xD800 :=
        ((List.length_filterMap_le _ _).trans (List.length_filterMap_le _ _)).trans_lt hlen
      obtain ⟨w, hw, hout⟩ := exists_escape _ x y hnone (exists_fresh_char _ hshort)
      refine ⟨k.capability w, ?_, fun p hp => ?_⟩
      · refine (capabilityMatches_glob_iff hb).mpr ⟨w, globPart_capability k w, ?_⟩
        rwa [globMatches_iff, hpat]
      · rw [Bool.eq_false_iff]
        intro hm
        cases hpg : p.globPart with
        | none =>
          cases p <;> simp only [Capability.globPart, reduceCtorEq] at hpg <;>
            cases k <;> simp [GlobKind.capability, capabilityMatches] at hm
        | some lb =>
          obtain ⟨l, b'⟩ := lb
          obtain ⟨w', hw', hm'⟩ := (capabilityMatches_glob_iff hpg).mp hm
          rw [globPart_capability, Option.some.injEq, Prod.mk.injEq] at hw'
          obtain ⟨rfl, rfl⟩ := hw'
          exact hout _ (mem_patternsOf.mpr ⟨p, hp, b', hpg, rfl⟩)
            ((globMatches_iff b' w).mp hm')

theorem globPattern_span {pattern u v : Str} (h : globPattern pattern = .span u v) :
    pattern = u ++ '*' :: v := by
  unfold globPattern at h
  split at h
  · next hhead =>
    obtain ⟨rfl, rfl⟩ := Pattern.span.inj h
    exact List.eq_cons_of_mem_head? hhead
  · split at h
    · next hlast =>
      obtain ⟨rfl, rfl⟩ := Pattern.span.inj h
      exact (List.dropLast_append_getLast? _ hlast).symm
    · split at h
      · next hmem =>
        obtain ⟨rfl, rfl⟩ := Pattern.span.inj h
        exact takeWhile_star_dropWhile hmem
      · cases h

theorem globPattern_literal {pattern w : Str} (h : globPattern pattern = .literal w) :
    w = pattern := by
  unfold globPattern at h
  split at h
  · cases h
  · split at h
    · cases h
    · split at h
      · cases h
      · simpa using h.symm

theorem prefix_of_starless {x u v : Str} (hx : '*' ∉ x) (h : x <+: u ++ '*' :: v) : x <+: u := by
  by_contra hne
  obtain ⟨t, ht⟩ := h
  rcases List.append_eq_append_iff.mp ht with ⟨a, rfl, -⟩ | ⟨a, rfl, ha⟩
  · exact hne ⟨a, rfl⟩
  · cases a with
    | nil => exact hne (by simp)
    | cons c a =>
      obtain ⟨rfl, -⟩ := by simpa using ha
      exact hx (by simp)

theorem starless_suffix {y u v : Str} (hy : '*' ∉ y) (h : y <:+ u ++ '*' :: v) : y <:+ v := by
  rw [← List.reverse_prefix] at h ⊢
  rw [List.reverse_append, List.reverse_cons, List.append_assoc] at h
  exact prefix_of_starless (by simpa using hy) h

/-- Where the text of a child is accepted by a parent with at most one star, the
parent covers the child. -/
theorem covers_of_matches {p c : Capability} (hm : capabilityMatches p c = true)
    (hone : ∀ k a, p.globPart = some (k, a) → a.count '*' ≤ 1) : p.Covers c := by
  cases hp : p.globPart with
  | none => exact (covers_plain hp c).mpr hm
  | some ka =>
    obtain ⟨k, a⟩ := ka
    obtain ⟨b, hb, hab⟩ := (capabilityMatches_glob_iff hp).mp hm
    refine (covers_glob hp hb).mpr ⟨rfl, ?_⟩
    rw [globMatches_iff] at hab
    cases hpb : globPattern b with
    | literal w => rwa [globPattern_literal hpb]
    | span u v =>
      have hbuv := globPattern_span hpb
      cases hpa : globPattern a with
      | literal w =>
        obtain rfl := globPattern_literal hpa
        rw [hpa] at hab
        obtain rfl : b = w := hab
        rw [hpa] at hpb
        cases hpb
      | span x y =>
        have hcount : (x ++ '*' :: y).count '*' ≤ 1 := globPattern_span hpa ▸ hone k a hp
        simp only [List.count_append, List.count_cons_self] at hcount
        rw [hpa, mem_span_iff, hbuv] at hab
        exact ⟨prefix_of_starless (List.count_eq_zero.mp (by omega)) hab.1,
          starless_suffix (List.count_eq_zero.mp (by omega)) hab.2.1⟩

/-- Spawning never hands on more than the parent holds as long as every child
capability is covered; for fewer than 55296 parent capabilities (the smallest
alphabet that cannot be listed by them) an accepted child that no parent covers
always gains something. -/
theorem validateCapabilityInheritance_sound (debug : Capability → Str)
    (parentCaps childCaps : List Capability) :
    ((∀ c ∈ childCaps, ∃ p ∈ parentCaps, p.Covers c) → NoEscalation parentCaps childCaps) ∧
      (parentCaps.length < 0xD800 →
        validateCapabilityInheritance debug parentCaps childCaps = .ok () →
        (NoEscalation parentCaps childCaps ↔ ∀ c ∈ childCaps, ∃ p ∈ parentCaps, p.Covers c)) := by
  refine ⟨noEscalation_of_covers, fun hlen hok => ⟨fun hne c hc => ?_, noEscalation_of_covers⟩⟩
  by_contra hcov
  have hun : ∀ p ∈ parentCaps, ¬ p.Covers c := fun p hp h => hcov ⟨p, hp, h⟩
  obtain ⟨required, hr, hout⟩ := exists_escalation hlen
    ((validateCapabilityInheritance_ok_iff debug parentCaps childCaps).mp hok c hc) hun
  obtain ⟨p, hp, hpr⟩ := hne required ⟨c, hc, hr⟩
  rw [hout p hp] at hpr
  cases hpr

theorem validateCapabilityInheritance_sound_data :
    NoEscalation [.fileRead "*".toList] [.fileRead "/data/*".toList] :=
  (validateCapabilityInheritance_sound (fun _ => []) _ _).1 (by
    intro c hc
    obtain rfl := List.mem_singleton.mp hc
    exact ⟨_, List.mem_singleton_self _, (covers_glob rfl rfl).mpr ⟨rfl, by decide⟩⟩)

/-- A parent that may read `*.*` only grants the texts that end in `.*`; its child
may ask for `a.*` and then reads `a.txt`. -/
theorem validateCapabilityInheritance_escalates :
    validateCapabilityInheritance (fun _ => []) [.fileRead "*.*".toList]
        [.fileRead "a.*".toList] = .ok () ∧
      capabilityMatches (.fileRead "a.*".toList) (.fileRead "a.txt".toList) = true ∧
      capabilityMatches (.fileRead "*.*".toList) (.fileRead "a.txt".toList) = false := by
  decide

end Clawreform.Types
