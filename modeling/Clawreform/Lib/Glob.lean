import Mathlib.Data.List.Infix
import Mathlib.Tactic.Cases

namespace Clawreform.Lib.Glob

variable {α : Type} {star c : α} {p w u v a b : List α} {ps : List (List α)}

/-- The language of a pattern: a star stands for any word, every other letter for itself. -/
inductive Matches (star : α) : List α → List α → Prop where
  | nil : Matches star [] []
  | letter {c : α} {p w : List α} (hc : c ≠ star) (h : Matches star p w) :
      Matches star (c :: p) (c :: w)
  | star {p w : List α} (u : List α) (h : Matches star p w) : Matches star (star :: p) (u ++ w)

/-- The parts of a pattern between its stars, one after the other with any words between them. -/
def Joined : List (List α) → List α → Prop
  | [], w => w = []
  | [a], w => w = a
  | a :: b :: ps, w => ∃ u v, w = a ++ (u ++ v) ∧ Joined (b :: ps) v

/-- The parts stand in a word, the last one at its end. -/
def Reaches (ps : List (List α)) (w : List α) : Prop := ∃ u v, w = u ++ v ∧ Joined ps v

theorem joined_cons_cons : Joined (a :: b :: ps) w ↔ ∃ v, w = a ++ v ∧ Reaches (b :: ps) v := by
  constructor
  · rintro ⟨u, v, rfl, h⟩
    exact ⟨u ++ v, rfl, u, v, rfl, h⟩
  · rintro ⟨_, rfl, u, v, rfl, h⟩
    exact ⟨u, v, rfl, h⟩

theorem Reaches.append (u : List α) (h : Reaches ps w) : Reaches ps (u ++ w) := by
  obtain ⟨x, v, rfl, hv⟩ := h
  exact ⟨u ++ x, v, (List.append_assoc u x v).symm, hv⟩

theorem reaches_singleton : Reaches [a] w ↔ a <:+ w := by
  constructor
  · rintro ⟨u, v, rfl, rfl⟩
    exact List.suffix_append u v
  · rintro ⟨u, rfl⟩
    exact ⟨u, a, rfl, rfl⟩

theorem reaches_cons_cons : Reaches (a :: b :: ps) w ↔
    ∃ u v, w = u ++ (a ++ v) ∧ Reaches (b :: ps) v := by
  constructor
  · rintro ⟨u, v, rfl, hv⟩
    obtain ⟨x, rfl, hx⟩ := joined_cons_cons.mp hv
    exact ⟨u, x, rfl, hx⟩
  · rintro ⟨u, v, rfl, hv⟩
    exact ⟨u, a ++ v, rfl, joined_cons_cons.mpr ⟨v, rfl, hv⟩⟩

/-- A part may be taken where it comes first. -/
theorem reaches_first (hfirst : ∀ u' v', w = u' ++ (a ++ v') → u.length ≤ u'.length)
    (hw : w = u ++ (a ++ v)) : Reaches (a :: b :: ps) w ↔ Reaches (b :: ps) v := by
  rw [reaches_cons_cons]
  constructor
  · rintro ⟨u', v', hw', h⟩
    have hle := hfirst u' v' hw'
    have hsuffix : v' <:+ v := by
      have hv : v <:+ w := ⟨u ++ a, by rw [hw, List.append_assoc]⟩
      have hv' : v' <:+ w := ⟨u' ++ a, by rw [hw', List.append_assoc]⟩
      have hlen := congrArg List.length (hw.symm.trans hw')
      simp only [List.length_append] at hlen
      exact List.suffix_of_suffix_length_le hv' hv (by omega)
    obtain ⟨x, rfl⟩ := hsuffix
    exact h.append x
  · exact fun h => ⟨u, v, hw, h⟩

theorem joined_letter : Joined ((c :: a) :: ps) w ↔ ∃ v, w = c :: v ∧ Joined (a :: ps) v := by
  cases ps with
  | nil => exact ⟨fun h => ⟨a, h, rfl⟩, fun ⟨v, hw, hv⟩ => hw.trans (congrArg (c :: ·) hv)⟩
  | cons b ps =>
    constructor
    · intro h
      obtain ⟨v, rfl, hv⟩ := joined_cons_cons.mp h
      exact ⟨a ++ v, rfl, joined_cons_cons.mpr ⟨v, rfl, hv⟩⟩
    · rintro ⟨_, rfl, h⟩
      obtain ⟨v, rfl, hv⟩ := joined_cons_cons.mp h
      exact joined_cons_cons.mpr ⟨v, rfl, hv⟩

section Splitting

variable [DecidableEq α]

theorem splitOn_star : (star :: p).splitOn star = [] :: p.splitOn star := by
  rw [List.splitOn_cons_eq_if_modifyHead, if_pos (beq_self_eq_true star)]

theorem splitOn_letter (hc : c ≠ star) :
    (c :: p).splitOn star = (p.splitOn star).modifyHead (c :: ·) := by
  rw [List.splitOn_cons_eq_if_modifyHead, if_neg (by simpa using hc)]

theorem exists_splitOn (p : List α) : ∃ a ps, p.splitOn star = a :: ps :=
  List.exists_cons_of_ne_nil (List.splitOn_ne_nil star p)

/-- A pattern is the chain of its parts. -/
theorem matches_iff_joined : Matches star p w ↔ Joined (p.splitOn star) w := by
  induction p generalizing w with
  | nil =>
    rw [List.splitOn_nil]
    constructor
    · intro h
      cases h
      rfl
    · rintro rfl
      exact .nil
  | cons c p ih =>
    obtain ⟨a, ps, hsplit⟩ := @exists_splitOn _ star _ p
    by_cases hc : c = star
    · subst hc
      rw [splitOn_star, hsplit, joined_cons_cons]
      rw [hsplit] at ih
      constructor
      · intro h
        cases h with
        | letter hne _ => exact absurd rfl hne
        | star u h => exact ⟨_, rfl, u, _, rfl, ih.mp h⟩
      · rintro ⟨_, rfl, u, v, rfl, h⟩
        exact .star u (ih.mpr h)
    · rw [splitOn_letter hc, hsplit, List.modifyHead_cons, joined_letter]
      rw [hsplit] at ih
      constructor
      · intro h
        cases h with
        | letter _ h => exact ⟨_, rfl, ih.mp h⟩
        | star u h => exact absurd rfl hc
      · rintro ⟨v, rfl, h⟩
        exact .letter hc (ih.mpr h)

theorem length_splitOn (p : List α) : (p.splitOn star).length = p.count star + 1 := by
  induction p with
  | nil => rfl
  | cons c p ih =>
    by_cases hc : c = star
    · subst hc
      rw [splitOn_star, List.length_cons, ih, List.count_cons_self]
    · rw [splitOn_letter hc, List.length_modifyHead, ih, List.count_cons_of_ne hc]

end Splitting

end Clawreform.Lib.Glob

namespace Clawreform.Lib.Wildcard

/-- A pattern with at most one gap: a literal word, or two fixed ends with
anything between them. -/
inductive Pattern (α : Type)
  | literal (word : List α)
  | span (before after : List α)
  deriving DecidableEq

variable {α : Type}

def Pattern.Mem : Pattern α → List α → Prop
  | .literal s, w => w = s
  | .span a b, w => ∃ m, w = a ++ (m ++ b)

/-- Inclusion of patterns, decided on the fixed texts alone. -/
def Pattern.Covers (p : Pattern α) : Pattern α → Prop
  | .literal w => p.Mem w
  | .span c d =>
    match p with
    | .literal _ => False
    | .span a b => a <+: c ∧ b <:+ d

theorem mem_span_iff (a b w : List α) :
    (Pattern.span a b).Mem w ↔ a <+: w ∧ b <:+ w ∧ a.length + b.length ≤ w.length := by
  constructor
  · rintro ⟨m, rfl⟩
    refine ⟨⟨m ++ b, rfl⟩, ⟨a ++ m, by simp⟩, ?_⟩
    simp only [List.length_append]
    omega
  · rintro ⟨⟨t, rfl⟩, hb, hlen⟩
    have ht : b <:+ t := List.suffix_of_suffix_length_le hb ⟨a, rfl⟩ (by
      simp only [List.length_append] at hlen
      omega)
    obtain ⟨m, rfl⟩ := ht
    exact ⟨m, rfl⟩

instance [DecidableEq α] (p : Pattern α) (w : List α) : Decidable (p.Mem w) :=
  match p with
  | .literal s => inferInstanceAs (Decidable (w = s))
  | .span a b => decidable_of_iff _ (mem_span_iff a b w).symm

instance [DecidableEq α] (p q : Pattern α) : Decidable (p.Covers q) :=
  match p, q with
  | p, .literal w => inferInstanceAs (Decidable (p.Mem w))
  | .literal _, .span _ _ => inferInstanceAs (Decidable False)
  | .span a b, .span c d => inferInstanceAs (Decidable (a <+: c ∧ b <:+ d))

theorem Pattern.Covers.mem {p q : Pattern α} (h : p.Covers q) {w : List α} (hw : q.Mem w) :
    p.Mem w := by
  cases q with
  | literal s =>
    obtain rfl : w = s := hw
    exact h
  | span c d =>
    obtain ⟨m, rfl⟩ := hw
    cases p with
    | literal s => exact h.elim
    | span a b =>
      obtain ⟨⟨a', rfl⟩, ⟨b', rfl⟩⟩ := h
      exact ⟨a' ++ (m ++ b'), by simp⟩

/-- A word of `span c d` with one letter, repeated, in the gap. -/
def filled (c d : List α) (x : α) (n : Nat) : List α := c ++ (List.replicate n x ++ d)

theorem mem_filled (c d : List α) (x : α) (n : Nat) : (Pattern.span c d).Mem (filled c d x n) :=
  ⟨_, rfl⟩

theorem length_filled (c d : List α) (x : α) (n : Nat) :
    (filled c d x n).length = c.length + n + d.length := by
  simp [filled, Nat.add_assoc]

/-- A word that begins a filled word either lies before the gap or shows the
letter that fills it. -/
theorem start_filled {a c d : List α} {x : α} {n : Nat} (h : a <+: filled c d x (n + 1))
    (hc : ¬ a <+: c) : a[c.length]? = some x := by
  have hlt : c.length < a.length := by
    by_contra hle
    exact hc (List.prefix_of_prefix_length_le h ⟨_, rfl⟩ (by omega))
  obtain ⟨t, ht⟩ := h
  have hget : (a ++ t)[c.length]? = some x := by
    rw [ht]
    simp [filled, List.replicate_succ]
  rwa [List.getElem?_append_left hlt] at hget

theorem reverse_filled (c d : List α) (x : α) (n : Nat) :
    (filled c d x n).reverse = filled d.reverse c.reverse x n := by
  simp [filled]

/-- The one letter a pattern can meet in the gap of `span c d` without covering it. -/
def guess (c d : List α) : Pattern α → Option α
  | .literal _ => none
  | .span a b => if a.length ≤ c.length then b.reverse[d.length]? else a[c.length]?

theorem not_mem_filled {p : Pattern α} {c d : List α} (hp : ¬ p.Covers (.span c d)) {x : α}
    (hx : guess c d p ≠ some x) {n : Nat} (hn : ∀ s, p = .literal s → s.length ≤ n) :
    ¬ p.Mem (filled c d x (n + 1)) := by
  intro hm
  cases p with
  | literal s =>
    have hlen : (filled c d x (n + 1)).length = s.length := congrArg List.length hm
    have := hn s rfl
    rw [length_filled] at hlen
    omega
  | span a b =>
    obtain ⟨ha, hb, -⟩ := (mem_span_iff a b _).mp hm
    simp only [guess] at hx
    split at hx
    · next hle =>
      have hac : a <+: c := List.prefix_of_prefix_length_le ha ⟨_, rfl⟩ hle
      have hbd : ¬ b.reverse <+: d.reverse := fun h => hp ⟨hac, List.reverse_prefix.mp h⟩
      have hb' : b.reverse <+: filled d.reverse c.reverse x (n + 1) := by
        rw [← reverse_filled]
        exact List.reverse_prefix.mpr hb
      have := start_filled hb' hbd
      rw [List.length_reverse] at this
      exact hx this
    · next hlt =>
      have hac : ¬ a <+: c := fun h => hlt h.length_le
      exact hx (start_filled ha hac)

/-- Patterns none of which covers `span c d` miss a word of it together, as long
as there is a letter that none of them guesses. -/
theorem exists_escape (ps : List (Pattern α)) (c d : List α)
    (hps : ∀ p ∈ ps, ¬ p.Covers (.span c d)) (hfresh : ∃ x, x ∉ ps.filterMap (guess c d)) :
    ∃ w, (Pattern.span c d).Mem w ∧ ∀ p ∈ ps, ¬ p.Mem w := by
  obtain ⟨x, hx⟩ := hfresh
  have hlong : ∃ n, ∀ p ∈ ps, ∀ s, p = .literal s → s.length ≤ n := by
    clear hps hx
    induction ps with
    | nil => exact ⟨0, by simp⟩
    | cons p ps ih =>
      obtain ⟨n, hn⟩ := ih
      cases p with
      | literal s =>
        refine ⟨max n s.length, ?_⟩
        rintro q hq t rfl
        rcases List.mem_cons.mp hq with h | h
        · obtain rfl : t = s := by simpa using h
          exact le_max_right _ _
        · exact (hn _ h t rfl).trans (le_max_left _ _)
      | span a b =>
        refine ⟨n, ?_⟩
        rintro q hq t rfl
        exact hn _ ((List.mem_cons.mp hq).resolve_left (by simp)) t rfl
  obtain ⟨n, hn⟩ := hlong
  refine ⟨filled c d x (n + 1), mem_filled c d x (n + 1), fun p hp => ?_⟩
  refine not_mem_filled (hps p hp) (fun h => hx ?_) (hn p hp)
  exact List.mem_filterMap.mpr ⟨p, hp, h⟩

end Clawreform.Lib.Wildcard
