import Mathlib.Data.List.Forall2
import Mathlib.Order.Basic

namespace Clawreform.Lib.Passes

variable {σ α β : Type*} {f : σ → α → Option (β × σ)}

/-- Rewrite the elements of a list in order, with a state passed along. A step may
fail. -/
def pass (f : σ → α → Option (β × σ)) : σ → List α → Option (List β × σ)
  | st, [] => some ([], st)
  | st, x :: xs =>
    (f st x).bind fun p => (pass f p.2 xs).map fun q => (p.1 :: q.1, q.2)

theorem pass_nil (st : σ) : pass f st [] = some ([], st) := rfl

theorem pass_cons (st : σ) (x : α) (xs : List α) :
    pass f st (x :: xs) =
      (f st x).bind fun p => (pass f p.2 xs).map fun q => (p.1 :: q.1, q.2) := rfl

theorem pass_append (st : σ) (xs ys : List α) :
    pass f st (xs ++ ys) =
      (pass f st xs).bind fun p => (pass f p.2 ys).map fun q => (p.1 ++ q.1, q.2) := by
  induction xs generalizing st with
  | nil =>
    rw [List.nil_append, pass_nil, Option.bind_some]
    cases pass f st ys <;> rfl
  | cons x xs ih =>
    rw [List.cons_append, pass_cons, pass_cons]
    cases f st x with
    | none => rfl
    | some p =>
      rw [Option.bind_some, Option.bind_some, ih]
      cases pass f p.2 xs with
      | none => rfl
      | some q =>
        rw [Option.bind_some, Option.map_some, Option.bind_some]
        cases pass f q.2 ys <;> rfl

/-- A step that leaves every element as it is. -/
theorem pass_of_forall {g : σ → α → Option (α × σ)} {xs : List α} (next : σ → α → σ)
    (h : ∀ x ∈ xs, ∀ st, g st x = some (x, next st x)) (st : σ) :
    pass g st xs = some (xs, xs.foldl next st) := by
  induction xs generalizing st with
  | nil => rfl
  | cons x xs ih =>
    obtain ⟨hx, hxs⟩ := List.forall_mem_cons.mp h
    rw [pass_cons, hx, Option.bind_some, ih hxs]
    rfl

section Hunting

variable {opens : List α → Option (β × List α)} {s t rest : List α} {b : β} {n : Nat}

/-- What is found from the left: where something opens it is taken up, and the pass goes on
behind it. -/
def hunt (opens : List α → Option (β × List α)) : Nat → List α → List β
  | 0, _ => []
  | n + 1, s =>
    match opens s with
    | some (b, rest) => b :: hunt opens n rest
    | none =>
      match s with
      | [] => []
      | _ :: s => hunt opens n s

/-- The ends of a list that the pass comes to. -/
inductive Reached (opens : List α → Option (β × List α)) : List α → List α → Prop
  | here {s : List α} : Reached opens s s
  | skip {a : α} {s t : List α} (h : opens (a :: s) = none) (ht : Reached opens s t) :
    Reached opens (a :: s) t
  | jump {s rest t : List α} {b : β} (h : opens s = some (b, rest)) (ht : Reached opens rest t) :
    Reached opens s t

/-- What is taken up somewhere. -/
def Found (opens : List α → Option (β × List α)) (s : List α) (b : β) : Prop :=
  ∃ t rest, Reached opens s t ∧ opens t = some (b, rest)

theorem found_of_opens {a : β} (hs : opens s = some (a, rest)) :
    Found opens s b ↔ b = a ∨ Found opens rest b := by
  constructor
  · rintro ⟨t, behind, ht, hb⟩
    cases ht with
    | here => exact .inl (congrArg Prod.fst (Option.some.inj (hb.symm.trans hs)))
    | skip hnone _ => cases hnone.symm.trans hs
    | jump hjump ht =>
      cases Option.some.inj (hjump.symm.trans hs)
      exact .inr ⟨t, behind, ht, hb⟩
  · rintro (rfl | ⟨t, behind, ht, hb⟩)
    · exact ⟨s, rest, .here, hs⟩
    · exact ⟨t, behind, .jump hs ht, hb⟩

theorem found_cons_of_none {a : α} (hs : opens (a :: s) = none) :
    Found opens (a :: s) b ↔ Found opens s b := by
  constructor
  · rintro ⟨t, rest, ht, hb⟩
    cases ht with
    | here => cases hb.symm.trans hs
    | skip _ ht => exact ⟨t, rest, ht, hb⟩
    | jump hjump _ => cases hjump.symm.trans hs
  · rintro ⟨t, rest, ht, hb⟩
    exact ⟨t, rest, .skip hs ht, hb⟩

theorem not_found_nil (hs : opens [] = none) : ¬ Found opens [] b := by
  rintro ⟨t, rest, ht, hb⟩
  cases ht with
  | here => cases hb.symm.trans hs
  | jump hjump _ => cases hjump.symm.trans hs

/-- What is taken up is taken up at an end of the list. -/
theorem Found.exists_suffix (hopens : ∀ s b rest, opens s = some (b, rest) → rest <:+ s)
    (h : Found opens s b) : ∃ t rest, t <:+ s ∧ opens t = some (b, rest) := by
  obtain ⟨t, rest, ht, hb⟩ := h
  refine ⟨t, rest, ?_, hb⟩
  clear hb
  induction ht with
  | here => exact List.suffix_rfl
  | skip _ _ ih => exact ih.trans (List.suffix_cons _ _)
  | jump hjump _ ih => exact ih.trans (hopens _ _ _ hjump)

theorem reached_append {a : List α} (h : ∀ x y, a = x ++ y → y ≠ [] → opens (y ++ s) = none) :
    Reached opens (a ++ s) s := by
  induction a with
  | nil => exact .here
  | cons c a ih =>
    refine .skip (h [] (c :: a) rfl (List.cons_ne_nil c a)) (ih fun x y ha => ?_)
    exact h (c :: x) y (by rw [ha, List.cons_append])

theorem found_append {a : List α} (h : ∀ x y, a = x ++ y → y ≠ [] → opens (y ++ s) = none) :
    Found opens (a ++ s) b ↔ Found opens s b := by
  induction a with
  | nil => exact Iff.rfl
  | cons c a ih =>
    have hnone : opens (c :: (a ++ s)) = none := h [] (c :: a) rfl (List.cons_ne_nil c a)
    rw [List.cons_append, found_cons_of_none hnone]
    exact ih fun x y ha => h (c :: x) y (by rw [ha, List.cons_append])

theorem mem_hunt_iff (hopens : ∀ s b rest, opens s = some (b, rest) → rest.length < s.length)
    (hn : s.length < n) : b ∈ hunt opens n s ↔ Found opens s b := by
  induction n generalizing s with
  | zero => exact absurd hn (Nat.not_lt_zero _)
  | succ n ih =>
    cases hs : opens s with
    | some found =>
      obtain ⟨a, rest⟩ := found
      have hlen := hopens s a rest hs
      rw [found_of_opens hs, ← ih (s := rest) (by omega)]
      simp only [hunt, hs, List.mem_cons]
    | none =>
      cases s with
      | nil => simpa only [hunt, hs, List.not_mem_nil, false_iff] using not_found_nil hs
      | cons a s =>
        rw [found_cons_of_none hs, ← ih (Nat.lt_of_succ_lt_succ hn)]
        simp only [hunt, hs]

end Hunting

section Fallible

variable {ε γ : Type*} {g : α → Except ε γ} {p : γ → α → Prop} {xs : List α}

/-- Steps that all go well do so together. -/
theorem mapM_ok (h : ∀ x ∈ xs, ∃ y, g x = .ok y ∧ p y x) :
    ∃ ys, xs.mapM g = .ok ys ∧ List.Forall₂ p ys xs := by
  induction xs with
  | nil => exact ⟨[], rfl, .nil⟩
  | cons x xs ih =>
    obtain ⟨⟨y, hy, hp⟩, hxs⟩ := List.forall_mem_cons.mp h
    obtain ⟨ys, hys, hall⟩ := ih hxs
    exact ⟨y :: ys, by rw [List.mapM_cons, hy, hys]; rfl, .cons hp hall⟩

end Fallible

end Clawreform.Lib.Passes

namespace Clawreform.Lib.Rewriting

variable {α β : Type} {turn : α → Option α} {s t out : α} {n : Nat}

/-- Turns until there is none to take. Without an answer, they have not come to an end in time. -/
@[grind =] def rewrite (turn : α → Option α) : Nat → α → Option α
  | 0, _ => none
  | n + 1, s =>
    match turn s with
    | some t => rewrite turn n t
    | none => some s

/-- What all turns make of something. -/
inductive Rewrites (turn : α → Option α) : α → α → Prop where
  | stays {s : α} (h : turn s = none) : Rewrites turn s s
  | moves {s t out : α} (h : turn s = some t) (rest : Rewrites turn t out) : Rewrites turn s out

theorem rewrites_of_rewrite (h : rewrite turn n s = some out) : Rewrites turn s out := by
  induction n generalizing s with
  | zero => cases h
  | succ n ih =>
    rw [rewrite] at h
    split at h
    · rename_i t ht
      exact .moves ht (ih h)
    · rename_i hnone
      cases h
      exact .stays hnone

theorem Rewrites.unique (h : Rewrites turn s out) (h' : Rewrites turn s t) : out = t := by
  induction h with
  | stays hnone =>
    cases h' with
    | stays _ => rfl
    | moves hmove _ => cases hnone.symm.trans hmove
  | moves hmove _ ih =>
    cases h' with
    | stays hnone => cases hnone.symm.trans hmove
    | moves hmove' rest => exact ih (Option.some.inj (hmove.symm.trans hmove') ▸ rest)

/-- What no turn changes. -/
theorem Rewrites.invariant {f : α → β} (hf : ∀ s t, turn s = some t → f t = f s)
    (h : Rewrites turn s out) : f out = f s := by
  induction h with
  | stays _ => rfl
  | moves ht _ ih => exact ih.trans (hf _ _ ht)

section Measure

variable {size : α → Nat}

theorem rewrite_of_rewrites (hsize : ∀ s t, turn s = some t → size t < size s)
    (h : Rewrites turn s out) (hn : size s < n) : rewrite turn n s = some out := by
  induction h generalizing n with
  | stays hnone =>
    obtain ⟨n, rfl⟩ := Nat.exists_eq_succ_of_ne_zero (Nat.ne_zero_of_lt hn)
    rw [rewrite, hnone]
  | moves ht _ ih =>
    obtain ⟨n, rfl⟩ := Nat.exists_eq_succ_of_ne_zero (Nat.ne_zero_of_lt hn)
    rw [rewrite, ht]
    exact ih (Nat.lt_of_lt_of_le (hsize _ _ ht) (Nat.le_of_lt_succ hn))

/-- Turns that make something smaller come to an end. -/
theorem exists_rewrite (hsize : ∀ s t, turn s = some t → size t < size s) (hn : size s < n) :
    ∃ out, rewrite turn n s = some out := by
  induction n generalizing s with
  | zero => exact absurd hn (Nat.not_lt_zero _)
  | succ n ih =>
    rw [rewrite]
    split
    · rename_i t ht
      exact ih (Nat.lt_of_lt_of_le (hsize _ _ ht) (Nat.le_of_lt_succ hn))
    · exact ⟨s, rfl⟩

end Measure

end Clawreform.Lib.Rewriting
