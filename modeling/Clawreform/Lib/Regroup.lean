import Mathlib.Data.List.Flatten
import Mathlib.Data.List.Forall2
import Mathlib.Data.List.Basic

namespace Clawreform.Lib.Regroup

open List

variable {α β ι : Type*} {R : α → β → Prop} {f : ι → List α} {g : ι → List β} {l : List ι}

theorem forall₂_append_iff {as as' : List α} {bs bs' : List β} (h : as.length = bs.length) :
    Forall₂ R (as ++ as') (bs ++ bs') ↔ Forall₂ R as bs ∧ Forall₂ R as' bs' := by
  constructor
  · intro hall
    have htake := forall₂_take as.length hall
    have hdrop := forall₂_drop as.length hall
    rw [take_left, h, take_left] at htake
    rw [drop_left, h, drop_left] at hdrop
    exact ⟨htake, hdrop⟩
  · rintro ⟨has, has'⟩
    exact rel_append has has'

theorem forall₂_map_iff {γ : Type*} {a : γ → α} {b : γ → β} {cs : List γ} :
    Forall₂ R (cs.map a) (cs.map b) ↔ ∀ c ∈ cs, R (a c) (b c) := by
  rw [forall₂_map_left_iff, forall₂_map_right_iff, forall₂_same]

theorem forall_mem_of_forall₂ {P : β → Prop} {as : List α} {bs : List β} (h : Forall₂ R as bs)
    (hP : ∀ a b, R a b → P b) : ∀ b ∈ bs, P b := by
  induction h with
  | nil => simp
  | cons hab _ ih => exact forall_mem_cons.mpr ⟨hP _ _ hab, ih⟩

/-- Two filters that keep the same items give the same list only where they give the same item. -/
theorem filterMap_eq_iff {f g : ι → Option α} (h : ∀ x, (f x).isSome = (g x).isSome)
    (l : List ι) : l.filterMap f = l.filterMap g ↔ ∀ x ∈ l, f x = g x := by
  induction l with
  | nil => simp
  | cons x l ih =>
    have hx := h x
    rw [forall_mem_cons, ← ih, filterMap_cons, filterMap_cons]
    cases hf : f x with
    | none =>
      rw [hf, Option.isSome_none] at hx
      rw [Option.isSome_eq_false_iff.mp hx.symm |> Option.isNone_iff_eq_none.mp]
      simp
    | some a =>
      rw [hf, Option.isSome_some] at hx
      obtain ⟨b, hb⟩ := Option.isSome_iff_exists.mp hx.symm
      simp [hb]

theorem length_flatMap_le (h : ∀ x ∈ l, (g x).length ≤ (f x).length) :
    (l.flatMap g).length ≤ (l.flatMap f).length := by
  induction l with
  | nil => exact Nat.le_refl 0
  | cons x l ih =>
    rw [flatMap_cons, flatMap_cons, length_append, length_append]
    exact Nat.add_le_add (h x mem_cons_self) (ih fun y hy => h y (mem_cons_of_mem _ hy))

/-- Groups of which none is longer than its counterpart match as a whole only one by one. -/
theorem forall₂_flatMap_iff (h : ∀ x ∈ l, (g x).length ≤ (f x).length) :
    Forall₂ R (l.flatMap f) (l.flatMap g) ↔ ∀ x ∈ l, Forall₂ R (f x) (g x) := by
  induction l with
  | nil => simp
  | cons x l ih =>
    have hrest : ∀ y ∈ l, (g y).length ≤ (f y).length := fun y hy => h y (mem_cons_of_mem _ hy)
    rw [flatMap_cons, flatMap_cons, forall_mem_cons]
    constructor
    · intro hall
      have hlen := hall.length_eq
      have hle := length_flatMap_le hrest
      have hx := h x mem_cons_self
      rw [length_append, length_append] at hlen
      obtain ⟨hfirst, hothers⟩ := (forall₂_append_iff (by omega)).mp hall
      exact ⟨hfirst, (ih hrest).mp hothers⟩
    · rintro ⟨hfirst, hothers⟩
      exact rel_append hfirst ((ih hrest).mpr hothers)

/-- So what is contained in order in groups that are no longer is all there is. -/
theorem sublistForall₂_flatMap_iff (h : ∀ x ∈ l, (g x).length ≤ (f x).length) :
    SublistForall₂ R (l.flatMap f) (l.flatMap g) ↔ ∀ x ∈ l, Forall₂ R (f x) (g x) := by
  rw [← forall₂_flatMap_iff h, sublistForall₂_iff]
  constructor
  · rintro ⟨ys, hys, hsub⟩
    have hlen := length_flatMap_le h
    rw [hys.length_eq] at hlen
    rwa [← hsub.eq_of_length_le hlen]
  · intro hall
    exact ⟨_, hall, Sublist.refl _⟩

end Clawreform.Lib.Regroup

namespace Clawreform.Lib.Pieces

variable {α β : Type} {c d : α} {a b p q s : List α}

theorem append_cons_cases (h : a ++ c :: b = p ++ d :: q) :
    (a = p ∧ c = d ∧ b = q) ∨ (∃ z, a = p ++ d :: z ∧ q = z ++ c :: b) ∨
      ∃ z, p = a ++ c :: z ∧ b = z ++ d :: q := by
  rw [List.append_eq_append_iff] at h
  obtain ⟨z, rfl, h⟩ | ⟨z, rfl, h⟩ := h
  · obtain ⟨rfl, h⟩ | ⟨z, rfl, rfl⟩ := List.cons_eq_append_iff.mp h
    · injection h with hd hq
      exact .inl ⟨(List.append_nil _).symm, hd, hq⟩
    · exact .inr (.inr ⟨z, rfl, rfl⟩)
  · obtain ⟨rfl, h⟩ | ⟨z, rfl, rfl⟩ := List.cons_eq_append_iff.mp h
    · injection h with hd hq
      exact .inl ⟨List.append_nil _, hd.symm, hq.symm⟩
    · exact .inr (.inl ⟨z, rfl, rfl⟩)

/-- The first place of an element is one place. -/
theorem append_cons_inj (ha : c ∉ a) (hp : c ∉ p) : a ++ c :: b = p ++ c :: q ↔ a = p ∧ b = q := by
  constructor
  · intro h
    obtain ⟨rfl, -, rfl⟩ | ⟨z, rfl, -⟩ | ⟨z, rfl, -⟩ := append_cons_cases h
    · exact ⟨rfl, rfl⟩
    · exact absurd (List.mem_append_right _ (List.mem_cons_self ..)) ha
    · exact absurd (List.mem_append_right _ (List.mem_cons_self ..)) hp
  · rintro ⟨rfl, rfl⟩
    rfl

/-- What is in neither end is in the middle. -/
theorem middle_eq_append_cons (ha : c ∉ a) (hb : c ∉ b) (h : a ++ (s ++ b) = p ++ c :: q) :
    ∃ x y, s = x ++ c :: y ∧ p = a ++ x ∧ q = y ++ b := by
  obtain ⟨x, rfl, hrest⟩ : ∃ x, p = a ++ x ∧ s ++ b = x ++ c :: q := by
    obtain ⟨x, hp, hrest⟩ | ⟨x, rfl, hrest⟩ := List.append_eq_append_iff.mp h
    · exact ⟨x, hp, hrest⟩
    · obtain ⟨rfl, hrest⟩ | ⟨z, rfl, -⟩ := List.cons_eq_append_iff.mp hrest
      · exact ⟨[], by simp, hrest.symm⟩
      · exact absurd (List.mem_append_right _ (List.mem_cons_self ..)) ha
  obtain ⟨z, -, rfl⟩ | ⟨z, rfl, hbehind⟩ := List.append_eq_append_iff.mp hrest
  · exact absurd (List.mem_append_right _ (List.mem_cons_self ..)) hb
  · obtain ⟨rfl, rfl⟩ | ⟨z, rfl, rfl⟩ := List.cons_eq_append_iff.mp hbehind
    · exact absurd (List.mem_cons_self ..) hb
    · exact ⟨x, z, rfl, rfl, rfl⟩

variable {f g : β → List α} {l : List β}

/-- An element of pieces put together stands in one of them. -/
theorem flatMap_eq_append_cons (h : l.flatMap f = p ++ c :: q) : ∃ front t behind x y,
    l = front ++ t :: behind ∧ f t = x ++ c :: y ∧ p = front.flatMap f ++ x ∧
      q = y ++ behind.flatMap f := by
  induction l generalizing p with
  | nil => cases p <;> cases h
  | cons t l ih =>
    rw [List.flatMap_cons] at h
    obtain ⟨z, rfl, hrest⟩ | ⟨z, ht, hrest⟩ := List.append_eq_append_iff.mp h
    · obtain ⟨front, t', behind, x, y, rfl, ht', rfl, rfl⟩ := ih hrest
      exact ⟨t :: front, t', behind, x, y, rfl, ht', (List.append_assoc ..).symm, rfl⟩
    · obtain ⟨rfl, hrest⟩ | ⟨z, rfl, rfl⟩ := List.cons_eq_append_iff.mp hrest
      · obtain ⟨front, t', behind, x, y, rfl, ht', hx, rfl⟩ := @ih [] hrest.symm
        refine ⟨t :: front, t', behind, x, y, rfl, ht', ?_, rfl⟩
        rw [List.flatMap_cons, List.append_assoc, ← hx, ht, List.append_nil,
          List.append_nil]
      · exact ⟨[], t, l, p, z, rfl, ht, rfl, rfl⟩

variable [DecidableEq α]

/-- Pieces that have more of an element when they are other pieces. -/
theorem flatMap_count {P : β → Prop}
    (h : ∀ t, P t ∧ f t = g t ∨ (g t).count c < (f t).count c) (l : List β) :
    (∀ t ∈ l, P t) ∧ l.flatMap f = l.flatMap g ∨ (l.flatMap g).count c < (l.flatMap f).count c := by
  induction l with
  | nil => exact .inl ⟨nofun, rfl⟩
  | cons t l ih =>
    rw [List.flatMap_cons, List.flatMap_cons, List.count_append, List.count_append]
    obtain ⟨ht, heq⟩ | hlt := h t
    · rw [heq]
      exact ih.imp (fun ⟨hl, hrest⟩ => ⟨List.forall_mem_cons.mpr ⟨ht, hl⟩, by rw [hrest]⟩)
        (Nat.add_lt_add_left · _)
    · obtain ⟨-, hrest⟩ | hrest := ih
      · rw [hrest]
        exact .inr (Nat.add_lt_add_right hlt _)
      · exact .inr (Nat.add_lt_add hlt hrest)

end Clawreform.Lib.Pieces
