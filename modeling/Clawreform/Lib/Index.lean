import Mathlib.Data.List.Nodup
import Clawreform.Lib.Store

namespace Clawreform.Lib.Index

open Clawreform.Lib.Store

variable {κ ν τ : Type*} [DecidableEq κ] [DecidableEq τ]
variable {index : Map τ (List κ)} {s : Map κ ν} {labels : ν → List τ}

/-- The keys listed under a label. A label without an entry lists none. -/
def listed (index : Map τ (List κ)) (t : τ) : List κ := (index.lookup t).getD []

/-- List one more key under a label. -/
def push (k : κ) (index : Map τ (List κ)) (t : τ) : Map τ (List κ) :=
  index.insert t (listed index t ++ [k])

/-- Strike a key from the list of a label. -/
def strike (k : κ) (index : Map τ (List κ)) (t : τ) : Map τ (List κ) :=
  adjust t (List.filter (fun j => j ≠ k)) index

omit [DecidableEq κ] in
@[simp] theorem listed_empty (t : τ) : listed (∅ : Map τ (List κ)) t = [] := rfl

omit [DecidableEq κ] in
theorem listed_push (k : κ) (index : Map τ (List κ)) (t u : τ) :
    listed (push k index t) u = if u = t then listed index t ++ [k] else listed index u := by
  rw [listed, push, lookup_insert]
  split <;> rfl

theorem listed_strike (k : κ) (index : Map τ (List κ)) (t u : τ) :
    listed (strike k index t) u =
      if u = t then (listed index t).filter (fun j => j ≠ k) else listed index u := by
  rw [listed, strike, lookup_adjust]
  by_cases h : u = t
  · subst h
    rw [if_pos rfl, if_pos rfl, listed]
    cases index.lookup u <;> rfl
  · rw [if_neg h, if_neg h, listed]

omit [DecidableEq κ] in
theorem listed_erase (index : Map τ (List κ)) (t u : τ) :
    listed (index.erase t) u = if u = t then [] else listed index u := by
  rw [listed, lookup_erase]
  split <;> rfl

omit [DecidableEq κ] in
theorem mem_listed_pushAll {ts : List τ} {j k : κ} {u : τ} :
    j ∈ listed (ts.foldl (push k) index) u ↔ j ∈ listed index u ∨ j = k ∧ u ∈ ts := by
  induction ts generalizing index with
  | nil => simp
  | cons t ts ih =>
    rw [List.foldl_cons, ih, listed_push]
    by_cases h : u = t
    · subst h
      simp only [↓reduceIte, List.mem_append, List.mem_cons, true_or, and_true]
      tauto
    · simp [h]

theorem mem_listed_strikeAll {ts : List τ} {j k : κ} {u : τ} :
    j ∈ listed (ts.foldl (strike k) index) u ↔ j ∈ listed index u ∧ ¬ (j = k ∧ u ∈ ts) := by
  induction ts generalizing index with
  | nil => simp
  | cons t ts ih =>
    rw [List.foldl_cons, ih, listed_strike]
    by_cases h : u = t
    · subst h
      simp only [↓reduceIte, List.mem_filter, decide_eq_true_eq, List.mem_cons, true_or, and_true]
      tauto
    · simp [h]

/-- The index lists under each label the keys whose values carry it. -/
def Indexed (labels : ν → List τ) (index : Map τ (List κ)) (s : Map κ ν) : Prop :=
  ∀ t k, k ∈ listed index t ↔ ∃ v, s.lookup k = some v ∧ t ∈ labels v

theorem indexed_empty : Indexed labels (∅ : Map τ (List κ)) (∅ : Map κ ν) := by
  intro t k
  simp

theorem Indexed.insert (h : Indexed labels index s) {k : κ} (hk : k ∉ s) (v : ν) :
    Indexed labels ((labels v).foldl (push k) index) (s.insert k v) := by
  intro t j
  rw [mem_listed_pushAll, h t j, lookup_insert]
  by_cases hj : j = k
  · subst hj
    simp [AList.lookup_eq_none.mpr hk]
  · simp [hj]

theorem Indexed.erase (h : Indexed labels index s) {k : κ} {v : ν} (hk : s.lookup k = some v) :
    Indexed labels ((labels v).foldl (strike k) index) (s.erase k) := by
  intro t j
  rw [mem_listed_strikeAll, h t j, lookup_erase]
  by_cases hj : j = k
  · subst hj
    simp [hk]
  · simp [hj]

theorem Indexed.mapValues (h : Indexed labels index s) {f : κ → ν → ν}
    (hf : ∀ k v, labels (f k v) = labels v) : Indexed labels index (mapValues f s) := by
  intro t j
  rw [h t j, lookup_mapValues]
  simp [hf]

theorem Indexed.adjust (h : Indexed labels index s) {k : κ} {f : ν → ν}
    (hf : ∀ v, labels (f v) = labels v) : Indexed labels index (adjust k f s) := by
  apply h.mapValues
  intro j v
  split
  · exact hf v
  · rfl

variable {names : Map τ κ} {name : ν → τ}

/-- The names of the stored values, each with the key of the value that bears it. -/
def Named (name : ν → τ) (names : Map τ κ) (s : Map κ ν) : Prop :=
  ∀ n k, names.lookup n = some k ↔ ∃ v, s.lookup k = some v ∧ name v = n

omit [DecidableEq κ] in
theorem mem_iff_isSome {n : τ} : n ∈ names ↔ ∃ k, names.lookup n = some k := by
  rw [← AList.lookup_isSome, Option.isSome_iff_exists]

theorem named_empty : Named name (∅ : Map τ κ) (∅ : Map κ ν) := by
  intro n k
  simp

/-- No two values share a name. -/
theorem Named.injective (h : Named name names s) {j k : κ} {v w : ν}
    (hj : s.lookup j = some v) (hk : s.lookup k = some w) (hn : name v = name w) : j = k := by
  have hv := (h (name v) j).mpr ⟨v, hj, rfl⟩
  have hw := (h (name v) k).mpr ⟨w, hk, hn.symm⟩
  exact Option.some.inj (hv.symm.trans hw)

theorem Named.not_mem (h : Named name names s) {n : τ} (hn : n ∉ names) {k : κ} {v : ν}
    (hk : s.lookup k = some v) : name v ≠ n :=
  fun he => hn (mem_iff_isSome.mpr ⟨k, (h n k).mpr ⟨v, hk, he⟩⟩)

theorem Named.insert (h : Named name names s) {k : κ} (hk : k ∉ s) {v : ν}
    (hv : name v ∉ names) : Named name (names.insert (name v) k) (s.insert k v) := by
  intro n j
  rw [lookup_insert, lookup_insert]
  by_cases hj : j = k
  · subst hj
    by_cases hn : n = name v
    · subst hn
      simp
    · simp [hn, h n j, AList.lookup_eq_none.mpr hk, Ne.symm hn]
  · rw [if_neg hj]
    by_cases hn : n = name v
    · subst hn
      rw [if_pos rfl]
      constructor
      · intro he
        exact absurd (Option.some.inj he).symm hj
      · rintro ⟨w, hw, he⟩
        exact absurd he (h.not_mem hv hw)
    · rw [if_neg hn, h n j]

theorem Named.erase (h : Named name names s) {k : κ} {v : ν} (hk : s.lookup k = some v) :
    Named name (names.erase (name v)) (s.erase k) := by
  intro n j
  rw [lookup_erase, lookup_erase]
  by_cases hj : j = k
  · subst hj
    by_cases hn : n = name v
    · simp [hn]
    · simp [hn, h n j, hk, Ne.symm hn]
  · rw [if_neg hj]
    by_cases hn : n = name v
    · subst hn
      rw [if_pos rfl]
      constructor
      · intro he
        cases he
      · rintro ⟨w, hw, he⟩
        exact absurd (h.injective hw hk he) hj
    · rw [if_neg hn, h n j]

theorem Named.adjust (h : Named name names s) {k : κ} {f : ν → ν}
    (hf : ∀ v, name (f v) = name v) : Named name names (adjust k f s) := by
  intro n j
  rw [h n j, lookup_adjust]
  split <;> simp [hf]

/-- Giving a value another name is taking it out and putting it back. -/
theorem Named.rename (h : Named name names s) {k : κ} {v : ν} (hk : s.lookup k = some v)
    {f : ν → ν} (hn : name (f v) ∉ names) :
    Named name ((names.erase (name v)).insert (name (f v)) k) (Store.adjust k f s) := by
  have hgone : name (f v) ∉ names.erase (name v) := fun hm => hn (AList.mem_erase.mp hm).2
  have hback := (h.erase hk).insert (k := k) (v := f v) (by simp) hgone
  intro n j
  rw [hback n j, lookup_insert, lookup_erase, lookup_adjust]
  by_cases hj : j = k
  · subst hj
    simp [hk]
  · simp [hj]

end Clawreform.Lib.Index
