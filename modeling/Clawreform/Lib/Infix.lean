import Mathlib.Data.List.Infix

namespace Clawreform.Lib.Infix

variable {α : Type*} {m s a b : List α} {c : α}

/-- A pattern does not reach over a character it does not hold. -/
theorem infix_cons_iff (hne : m ≠ []) (hc : c ∉ m) :
    m <:+: a ++ c :: b ↔ m <:+: a ∨ m <:+: b := by
  constructor
  · rintro ⟨u, v, h⟩
    rw [List.append_assoc, List.append_eq_append_iff] at h
    obtain ⟨w, rfl, hw⟩ | ⟨w, rfl, hw⟩ := h
    · rw [List.append_eq_append_iff] at hw
      obtain ⟨x, rfl, hx⟩ | ⟨x, rfl, hx⟩ := hw
      · exact .inl ⟨u, x, by simp⟩
      · cases x with
        | nil => exact .inl ⟨u, [], by simp⟩
        | cons d x =>
          cases (List.cons_eq_cons.mp hx).1
          simp at hc
    · cases w with
      | nil =>
        obtain ⟨d, m, rfl⟩ := List.exists_cons_of_ne_nil hne
        cases (List.cons_eq_cons.mp hw).1
        simp at hc
      | cons d w =>
        obtain ⟨-, rfl⟩ := List.cons_eq_cons.mp hw
        exact .inr ⟨w, v, by simp⟩
  · rintro (h | h)
    · exact h.trans (List.prefix_append a _).isInfix
    · exact h.trans ((List.suffix_cons c b).trans (List.suffix_append a _)).isInfix

theorem not_infix_of_length (h : s.length < m.length) : ¬ m <:+: s :=
  fun hinf => Nat.not_le.mpr h hinf.length_le

theorem not_infix_of_mem (hm : c ∈ m) (hs : c ∉ s) : ¬ m <:+: s := fun hinf => hs (hinf.subset hm)

theorem only_start_iff (hne : m ≠ []) :
    (∀ u v, s = u ++ m ++ v → u = []) ↔ ¬ m <:+: s.tail := by
  constructor
  · rintro h ⟨u, v, hs⟩
    cases s with
    | nil => simp [hne] at hs
    | cons c s =>
      have hall : c :: s = c :: u ++ m ++ v := by rw [← hs.trans List.tail_cons]; simp
      exact List.cons_ne_nil c u (h (c :: u) v hall)
  · intro h u v hs
    cases u with
    | nil => rfl
    | cons c u => exact absurd ⟨u, v, by rw [hs]; simp⟩ h

theorem only_end_iff (hne : m ≠ []) :
    (∀ u v, s = u ++ m ++ v → v = []) ↔ ¬ m <:+: s.dropLast := by
  constructor
  · rintro h ⟨u, v, hs⟩
    obtain rfl | ⟨s, c, rfl⟩ := List.eq_nil_or_concat s
    · simp [hne] at hs
    · rw [List.concat_eq_append, List.dropLast_concat] at hs
      have hv := h u (v ++ [c]) (by rw [List.concat_eq_append, ← hs, List.append_assoc])
      simp at hv
  · intro h u v hs
    obtain rfl | ⟨v, c, rfl⟩ := List.eq_nil_or_concat v
    · rfl
    · refine absurd ⟨u, v, ?_⟩ h
      rw [hs, List.concat_eq_append, ← List.append_assoc, List.dropLast_concat]

section Joined

variable {t : List α} {d : α}

/-- Two texts in front tell what stands behind them when neither is the beginning of a longer
other one, and only then. -/
theorem append_inj_iff : (∀ s t, a ++ s = b ++ t → a = b ∧ s = t) ↔
    (a <+: b ∨ b <+: a → a = b) := by
  constructor
  · rintro h (⟨m, rfl⟩ | ⟨m, rfl⟩)
    · exact (h m [] (by rw [List.append_nil])).1
    · exact (h [] m (by rw [List.append_nil])).1
  · intro h s t heq
    have hprefix : a <+: b ∨ b <+: a :=
      List.prefix_or_prefix_of_prefix (List.prefix_append a s) (heq ▸ List.prefix_append b t)
    obtain rfl := h hprefix
    exact ⟨rfl, List.append_cancel_left heq⟩

/-- Two texts with a separator between them. -/
def joined (d : α) (a s : List α) : List α := a ++ d :: s

/-- The first text is found again when it does not have the separator in it. -/
theorem joined_inj (ha : d ∉ a) (hb : d ∉ b) (h : joined d a s = joined d b t) :
    a = b ∧ s = t := by
  obtain ⟨m, hm, hs⟩ | ⟨m, hm, ht⟩ := List.append_eq_append_iff.mp h
  · cases m with
    | nil => exact ⟨by rw [hm, List.append_nil], (List.cons_eq_cons.mp hs).2⟩
    | cons c m =>
      obtain ⟨rfl, -⟩ := List.cons_eq_cons.mp hs
      exact absurd (hm ▸ List.mem_append_right a (List.mem_cons_self ..)) hb
  · cases m with
    | nil => exact ⟨by rw [hm, List.append_nil], (List.cons_eq_cons.mp ht).2.symm⟩
    | cons c m =>
      obtain ⟨rfl, -⟩ := List.cons_eq_cons.mp ht
      exact absurd (hm ▸ List.mem_append_right b (List.mem_cons_self ..)) ha

end Joined

end Clawreform.Lib.Infix

namespace Clawreform.Lib.Replacing

section Overlaps

variable {α : Type*} {m r s t x y : List α}

theorem infix_append_iff : m <:+: x ++ y ↔
    m <:+: x ∨ m <:+: y ∨ ∃ s t, m = s ++ t ∧ s ≠ [] ∧ t ≠ [] ∧ s <:+ x ∧ t <+: y := by
  constructor
  · rintro ⟨a, b, h⟩
    rw [List.append_assoc, List.append_eq_append_iff] at h
    obtain ⟨u, hx, hu⟩ | ⟨u, ha, hu⟩ := h
    · rw [List.append_eq_append_iff] at hu
      obtain ⟨v, hu, hb⟩ | ⟨v, hm, hy⟩ := hu
      · exact .inl ⟨a, v, by rw [hx, hu, List.append_assoc]⟩
      · by_cases hu : u = []
        · subst hu
          exact .inr (.inl ⟨[], b, by rw [hm, hy]; simp⟩)
        · by_cases hv : v = []
          · subst hv
            exact .inl ⟨a, [], by rw [hm, hx]; simp⟩
          · exact .inr (.inr ⟨u, v, hm, hu, hv, ⟨a, hx.symm⟩, ⟨b, hy.symm⟩⟩)
    · exact .inr (.inl ⟨u, b, by rw [List.append_assoc, ← hu]⟩)
  · rintro (h | h | ⟨s, t, rfl, -, -, ⟨a, rfl⟩, b, rfl⟩)
    · exact h.trans (List.prefix_append x y).isInfix
    · exact h.trans (List.suffix_append x y).isInfix
    · exact ⟨a, b, by simp⟩

/-- A word that has no part in common with another one at their ends, nor lies in it or around
it: wherever the other one stands, no occurrence touches it. -/
structure Apart (m r : List α) : Prop where
  starts : ∀ s t, m = s ++ t → t ≠ [] → ¬ t <+: r
  ends : ∀ s t, m = s ++ t → s ≠ [] → ¬ s <:+ r
  within : ¬ m <:+: r
  around : ¬ r <:+: m

theorem Apart.infix_iff (h : Apart m r) : m <:+: x ++ (r ++ y) ↔ m <:+: x ∨ m <:+: y := by
  constructor
  · intro hm
    obtain hx | hry | ⟨s, t, rfl, -, ht, -, hpre⟩ := infix_append_iff.mp hm
    · exact .inl hx
    · obtain hr | hy | ⟨s, t, rfl, hs, -, hsuf, -⟩ := infix_append_iff.mp hry
      · exact absurd hr h.within
      · exact .inr hy
      · exact absurd hsuf (h.ends s t rfl hs)
    · obtain hshort | hlong := List.prefix_or_prefix_of_prefix hpre (List.prefix_append r y)
      · exact absurd hshort (h.starts s t rfl ht)
      · exact absurd (hlong.isInfix.trans (List.suffix_append s t).isInfix) h.around
  · rintro (hx | hy)
    · exact hx.trans (List.prefix_append x _).isInfix
    · exact hy.trans ((List.suffix_append r y).trans (List.suffix_append x _)).isInfix

/-- The beginning of an occurrence that goes on behind the text stands behind the other word. -/
theorem Apart.suffix (h : Apart m r) (hm : m = s ++ t) (hs : s <:+ x ++ (r ++ y)) : s <:+ y := by
  have hy : y <:+ x ++ (r ++ y) := (List.suffix_append r y).trans (List.suffix_append x _)
  obtain hshort | ⟨u, rfl⟩ := List.suffix_or_suffix_of_suffix hs hy
  · exact hshort
  · by_cases hu : u = []
    · rw [hu]
      exact List.suffix_refl y
    · have hur : u <:+ x ++ r := by
        obtain ⟨z, hz⟩ := hs
        refine ⟨z, List.append_cancel_right (show z ++ u ++ y = x ++ r ++ y from ?_)⟩
        rw [List.append_assoc, List.append_assoc, hz]
      obtain hend | hall := List.suffix_or_suffix_of_suffix hur (List.suffix_append x r)
      · exact absurd hend (h.ends u (y ++ t) (by rw [hm, List.append_assoc]) hu)
      · refine absurd (hall.isInfix.trans ?_) h.around
        rw [hm, List.append_assoc]
        exact (List.prefix_append u _).isInfix

/-- The search for common parts. -/
def isApart [DecidableEq α] (m r : List α) : Bool :=
  m.tails.all (fun t => t.isEmpty || !decide (t <+: r)) &&
    m.inits.all (fun s => s.isEmpty || !decide (s <:+ r)) &&
    !decide (m <:+: r) && !decide (r <:+: m)

theorem apart_of_isApart [DecidableEq α] (h : isApart m r = true) : Apart m r := by
  simp only [isApart, Bool.and_eq_true, List.all_eq_true, Bool.or_eq_true, Bool.not_eq_true',
    decide_eq_false_iff_not, List.isEmpty_iff] at h
  obtain ⟨⟨⟨htails, hinits⟩, hwithin⟩, haround⟩ := h
  refine ⟨fun s t hm ht => ?_, fun s t hm hs => ?_, hwithin, haround⟩
  · exact (htails t ((List.mem_tails t m).mpr ⟨s, hm.symm⟩)).resolve_left ht
  · exact (hinits s ((List.mem_inits s m).mpr ⟨t, hm.symm⟩)).resolve_left hs

/-- No occurrence of a word in a text and a tail behind it reaches into the tail. -/
structure EndsBefore (m x tail : List α) : Prop where
  behind : ¬ m <:+: tail
  across : ∀ s t, m = s ++ t → t ≠ [] → s <:+ x → ¬ t <+: tail

theorem EndsBefore.infix_iff {tail : List α} (h : EndsBefore m x tail) :
    m <:+: x ++ tail ↔ m <:+: x := by
  rw [infix_append_iff]
  constructor
  · rintro (hx | hy | ⟨s, t, hm, -, ht, hs, hpre⟩)
    · exact hx
    · exact absurd hy h.behind
    · exact absurd hpre (h.across s t hm ht hs)
  · exact .inl

theorem EndsBefore.length_le {tail : List α} (h : EndsBefore m x tail) (hm : m ≠ [])
    (heq : x ++ tail = s ++ (m ++ t)) : s.length + m.length ≤ x.length := by
  by_contra hlt
  obtain ⟨u, rfl, hu⟩ | ⟨u, rfl, hu⟩ := List.append_eq_append_iff.mp heq
  · refine h.behind ⟨u, t, ?_⟩
    rw [hu, List.append_assoc]
  · obtain ⟨v, rfl, hv⟩ | ⟨v, rfl, hv⟩ := List.append_eq_append_iff.mp hu
    · simp only [List.length_append] at hlt
      omega
    · refine h.across u v rfl ?_ (List.suffix_append s u) ⟨t, hv.symm⟩
      rintro rfl
      simp at hlt

theorem EndsBefore.suffix {tail : List α} (h : EndsBefore m x tail) (hy : y <:+ x) :
    EndsBefore m y tail :=
  ⟨h.behind, fun s t hm ht hs => h.across s t hm ht (hs.trans hy)⟩

end Overlaps

section Replacement

variable {α β : Type*} {f : α → β} {m m' tail : List β} {r q q' : List α} {P : α → Prop}

/-- A word is replaced in a text from the left, where letters count by their images. The tail
behind the text is searched with it and stays. -/
inductive Replaced (f : α → β) (m : List β) (r : List α) (tail : List β) :
    List α → List α → Prop where
  | done {q : List α} (h : ¬ m <:+: q.map f ++ tail) : Replaced f m r tail q q
  | cut {p w q q' : List α} (hw : w.map f = m) (hfirst : ¬ m <:+: p.map f)
      (h : Replaced f m r tail q q') : Replaced f m r tail (p ++ (w ++ q)) (p ++ (r ++ q'))

theorem Replaced.forall (h : Replaced f m r tail q q') (hr : ∀ c ∈ r, P c) (hq : ∀ c ∈ q, P c) :
    ∀ c ∈ q', P c := by
  induction h with
  | done _ => exact hq
  | cut _ _ _ ih =>
    obtain ⟨hp, hwq⟩ := List.forall_mem_append.mp hq
    exact List.forall_mem_append.mpr
      ⟨hp, List.forall_mem_append.mpr ⟨hr, ih (List.forall_mem_append.mp hwq).2⟩⟩

/-- The word is gone. -/
theorem Replaced.gone (hapart : Apart m (r.map f)) (h : Replaced f m r tail q q') :
    ¬ m <:+: q'.map f := by
  induction h with
  | done h => exact fun hm => h (hm.trans (List.prefix_append _ tail).isInfix)
  | cut _ hfirst _ ih =>
    rw [List.map_append, List.map_append, hapart.infix_iff]
    exact not_or.mpr ⟨hfirst, ih⟩

/-- No other word comes in. -/
theorem Replaced.infix_of (hapart : Apart m' (r.map f)) (h : Replaced f m r tail q q')
    (hm : m' <:+: q'.map f) : m' <:+: q.map f := by
  induction h with
  | done _ => exact hm
  | @cut p w q q' _ _ _ ih =>
    rw [List.map_append, List.map_append, hapart.infix_iff] at hm
    rw [List.map_append, List.map_append]
    obtain hp | hq := hm
    · exact hp.trans (List.prefix_append _ _).isInfix
    · exact (ih hq).trans ((List.suffix_append _ _).trans (List.suffix_append _ _)).isInfix

theorem Replaced.endsBefore (hapart : Apart m' (r.map f)) (h : Replaced f m r tail q q')
    (hends : EndsBefore m' (q.map f) tail) : EndsBefore m' (q'.map f) tail := by
  induction h with
  | done _ => exact hends
  | @cut p w q q' _ _ _ ih =>
    rw [List.map_append, List.map_append] at hends
    have hlater := ih (hends.suffix ((List.suffix_append _ _).trans (List.suffix_append _ _)))
    rw [List.map_append, List.map_append]
    exact ⟨hlater.behind, fun s t hm ht hs => hlater.across s t hm ht (hapart.suffix hm hs)⟩

end Replacement

end Clawreform.Lib.Replacing
