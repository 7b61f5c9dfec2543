import Clawreform.Runtime.ToolPolicy

namespace Clawreform.Runtime.GlobMatchers

open Clawreform.Lib.Text Clawreform.Lib.Scan Clawreform.Lib.Glob Clawreform.Lib.Wildcard
open Clawreform.Types Clawreform.Runtime.ToolAccess

variable {pattern text before after : Str} {c : Char}

/-- The matcher of the capabilities with the slices it makes. -/
def slicedGlobMatches (pattern value : Str) : Except Stop Bool :=
  if pattern = ['*'] then pure true
  else if pattern = value then pure true
  else if pattern.head? = some '*' then pure (decide (pattern.tail <:+ value))
  else if pattern.getLast? = some '*' then pure (decide (pattern.dropLast <+: value))
  else
    match findByte ['*'] pattern with
    | some starPos => do
      let before ← part 0 starPos pattern
      let after ← rest (starPos + 1) pattern
      pure (decide (before <+: value) && decide (after <:+ value) &&
        decide (byteLen before + byteLen after ≤ byteLen value))
    | none => pure false

theorem star_notMem_takeWhile (pattern : Str) : '*' ∉ pattern.takeWhile (· ≠ '*') := by
  intro h
  simpa using List.mem_takeWhile_imp h

/-- The slices end and begin at a star, which takes one byte. -/
theorem slicedGlobMatches_eq (pattern value : Str) :
    slicedGlobMatches pattern value = .ok (globMatches pattern value) := by
  rw [slicedGlobMatches, globMatches]
  by_cases hall : pattern = ['*']
  · rw [if_pos hall, if_pos hall]
    rfl
  by_cases heq : pattern = value
  · rw [if_neg hall, if_neg hall, if_pos heq, if_pos heq]
    rfl
  by_cases hhead : pattern.head? = some '*'
  · rw [if_neg hall, if_neg hall, if_neg heq, if_neg heq, if_pos hhead, if_pos hhead]
    rfl
  by_cases hlast : pattern.getLast? = some '*'
  · rw [if_neg hall, if_neg hall, if_neg heq, if_neg heq, if_neg hhead, if_neg hhead,
      if_pos hlast, if_pos hlast]
    rfl
  rw [if_neg hall, if_neg hall, if_neg heq, if_neg heq, if_neg hhead, if_neg hhead, if_neg hlast,
    if_neg hlast]
  by_cases hstar : '*' ∈ pattern
  · rw [if_pos hstar]
    have hsplit := takeWhile_star_dropWhile hstar
    have hbefore := star_notMem_takeWhile pattern
    generalize pattern.takeWhile (· ≠ '*') = before at hsplit hbefore ⊢
    generalize (pattern.dropWhile (· ≠ '*')).tail = after at hsplit ⊢
    subst hsplit
    have hpart : part 0 (byteLen before) (before ++ '*' :: after) = .ok before := by
      have h := part_append [] before ('*' :: after)
      rwa [byteLen_nil, Nat.zero_add] at h
    have hrest : rest (byteLen before + 1) (before ++ '*' :: after) = .ok after := by
      have h := rest_append (before ++ ['*']) after
      rwa [byteLen_append, List.append_assoc] at h
    rw [findByte_notMem hbefore]
    show (part 0 (byteLen before) (before ++ '*' :: after) >>= _) = _
    rw [hpart, ok_bind, hrest]
    rfl
  · rw [if_neg hstar, findByte_notMem_none hstar]
    rfl

/-- A pattern without its stars is a word of it. -/
theorem matches_without (pattern : Str) : Matches '*' pattern (pattern.filter (· ≠ '*')) := by
  induction pattern with
  | nil => exact .nil
  | cons c pattern ih =>
    by_cases hc : c = '*'
    · subst hc
      exact .star [] ih
    · rw [List.filter_cons_of_pos (by simpa using hc)]
      exact .letter hc ih

theorem globPattern_of_notMem (h : '*' ∉ pattern) : globPattern pattern = .literal pattern := by
  rw [globPattern, if_neg, if_neg, if_neg h]
  · exact fun hlast => h (List.mem_of_getLast? hlast)
  · exact fun hhead => h (List.mem_of_head? hhead)

/-- With one star the first one is the only one, wherever it stands. -/
theorem globPattern_single (hbefore : '*' ∉ before) (hafter : '*' ∉ after) :
    globPattern (before ++ '*' :: after) = .span before after := by
  rw [globPattern]
  cases before with
  | nil => exact if_pos rfl
  | cons c before =>
    have hc : c ≠ '*' := fun h => hbefore (h ▸ List.mem_cons_self)
    rw [if_neg (by simpa using hc)]
    cases hlast : after.getLast? with
    | none =>
      obtain rfl := List.getLast?_eq_none_iff.mp hlast
      rw [if_pos List.getLast?_concat, List.dropLast_concat]
    | some d =>
      have hd : d ≠ '*' := fun h => hafter (h ▸ List.mem_of_getLast? hlast)
      have hall : ∀ x ∈ c :: before, (x ≠ '*' : Bool) = true := by
        intro x hx
        rw [decide_eq_true_iff]
        rintro rfl
        exact hbefore hx
      rw [if_neg (by simpa [List.getLast?_cons, hlast] using hd), if_pos (by simp),
        List.takeWhile_append_of_pos hall, List.dropWhile_append_of_pos hall]
      simp

theorem mem_globPattern_of_count_le (h : pattern.count '*' ≤ 1) :
    (globPattern pattern).Mem text ↔ Matches '*' pattern text := by
  by_cases hstar : '*' ∈ pattern
  · have hsplit := takeWhile_star_dropWhile hstar
    have hbefore := star_notMem_takeWhile pattern
    generalize pattern.takeWhile (· ≠ '*') = before at hsplit hbefore
    generalize (pattern.dropWhile (· ≠ '*')).tail = after at hsplit
    subst hsplit
    have hafter : '*' ∉ after := by
      rw [List.count_append, List.count_cons_self] at h
      exact List.count_eq_zero.mp (by omega)
    rw [globPattern_single hbefore hafter, matches_iff_joined,
      List.splitOn_append_cons_self_of_not_mem hbefore, List.splitOn_eq_singleton hafter,
      joined_pair, mem_span_iff]
    exact and_congr_right fun hb => and_congr_right fun ha => (byteLen_add_le_iff hb ha).symm
  · rw [globPattern_of_notMem hstar, matches_of_notMem hstar]
    rfl

/-- A second star stands for itself. -/
theorem not_mem_globPattern_of_count (h : 1 < pattern.count '*') :
    ¬ (globPattern pattern).Mem (pattern.filter (· ≠ '*')) := by
  have hfree : '*' ∉ pattern.filter (· ≠ '*') := fun hmem => by
    simpa using (List.mem_filter.mp hmem).2
  have hstar : '*' ∈ pattern := List.count_pos_iff.mp (by omega)
  rw [globPattern]
  split
  · rename_i hhead
    obtain ⟨tail, rfl⟩ := List.head?_eq_some_iff.mp hhead
    rw [List.count_cons_self] at h
    rw [mem_span_nil_left]
    exact fun hmem => hfree (hmem.subset (List.count_pos_iff.mp (Nat.lt_of_succ_lt_succ h)))
  · split
    · rename_i hlast
      obtain ⟨init, rfl⟩ := List.getLast?_eq_some_iff.mp hlast
      rw [List.count_append, List.count_singleton_self] at h
      rw [List.dropLast_concat, mem_span_nil_right]
      exact fun hmem => hfree (hmem.subset (List.count_pos_iff.mp (Nat.lt_of_succ_lt_succ h)))
    · rw [mem_span_iff]
      have hsplit := takeWhile_star_dropWhile hstar
      have hbefore := star_notMem_takeWhile pattern
      generalize pattern.takeWhile (· ≠ '*') = before at hsplit hbefore
      generalize (pattern.dropWhile (· ≠ '*')).tail = after at hsplit
      have hafter : '*' ∈ after := by
        rw [hsplit, List.count_append, List.count_cons_self, List.count_eq_zero.mpr hbefore] at h
        exact List.count_pos_iff.mp (by omega)
      exact fun hmem => hfree (hmem.2.1.subset hafter)

/-- Both matchers answer on every text, and they answer alike and by the language of the pattern
exactly when it has at most one star. -/
theorem matchers_agree_iff (pattern : Str) :
    (∀ text, (∃ b, slicedGlobMatches pattern text = .ok b) ∧ ∃ b, globMatch pattern text = .ok b) ∧
      ((∀ text, slicedGlobMatches pattern text = globMatch pattern text ∧
        (globMatch pattern text = .ok true ↔ Matches '*' pattern text)) ↔
        pattern.count '*' ≤ 1) := by
  refine ⟨fun text => ⟨⟨_, slicedGlobMatches_eq pattern text⟩, ?_⟩, fun h => ?_, fun h text => ?_⟩
  · obtain ⟨b, hb, -⟩ := globMatch_matches pattern text
    exact ⟨b, hb⟩
  · by_contra hcount
    obtain ⟨heq, hiff⟩ := h (pattern.filter (· ≠ '*'))
    have htrue := heq.trans (hiff.mpr (matches_without pattern))
    rw [slicedGlobMatches_eq, Except.ok.injEq, globMatches_iff] at htrue
    exact not_mem_globPattern_of_count (by omega) htrue
  · obtain ⟨b, hb, hiff⟩ := globMatch_matches pattern text
    rw [slicedGlobMatches_eq, hb, Except.ok.injEq, Except.ok.injEq]
    refine ⟨Bool.eq_iff_iff.mpr ?_, hiff⟩
    rw [globMatches_iff, mem_globPattern_of_count_le h, hiff]

/-- A text that two stars let through is refused by the capabilities. -/
theorem matchers_disagree :
    ¬ ∀ pattern text, slicedGlobMatches pattern text = globMatch pattern text := by
  intro h
  exact absurd (h "a*b*".toList "ab".toList) (by decide)

end Clawreform.Runtime.GlobMatchers
