import Mathlib.Data.List.Forall2
import Mathlib.Data.List.Infix

namespace Clawreform.Lib.HashChain

/-- What a chained entry shows: the text that is hashed, the link to the entry
before it and the digest stored with it. -/
structure View (E T D : Type) where
  text : E → T
  prev : E → D
  hash : E → D

variable {E T D : Type} (V : View E T D) (digest : T → D)

/-- The digest a chain that starts after `p` ends with. -/
def tip (p : D) : List E → D
  | [] => p
  | e :: es => tip (V.hash e) es

/-- Every entry carries the digest of its own text and the digest of the entry
before it; the first one is linked to `p`. -/
def Linked (p : D) : List E → Prop
  | [] => True
  | e :: es => V.prev e = p ∧ V.hash e = digest (V.text e) ∧ Linked (V.hash e) es

/-- Two entries a verifier of the chain cannot tell apart. -/
def Alike (e f : E) : Prop := V.text e = V.text f ∧ V.prev e = V.prev f ∧ V.hash e = V.hash f

theorem tip_append (p : D) (es fs : List E) : tip V p (es ++ fs) = tip V (tip V p es) fs := by
  induction es generalizing p with
  | nil => rfl
  | cons e es ih => exact ih (V.hash e)

theorem linked_append (p : D) (es fs : List E) :
    Linked V digest p (es ++ fs) ↔ Linked V digest p es ∧ Linked V digest (tip V p es) fs := by
  induction es generalizing p with
  | nil => simp [Linked, tip]
  | cons e es ih => simp only [List.cons_append, Linked, tip, ih, and_assoc]

variable {V digest}

theorem Linked.take {p : D} {es : List E} (h : Linked V digest p es) (k : Nat) :
    Linked V digest p (es.take k) := by
  rw [← List.take_append_drop k es, linked_append] at h
  exact h.1

theorem tip_alike {es fs : List E} (h : List.Forall₂ (Alike V) es fs) (p : D) :
    tip V p es = tip V p fs := by
  induction h generalizing p with
  | nil => rfl
  | cons hef _ ih =>
    simp only [tip]
    rw [hef.2.2]
    exact ih _

theorem linked_alike {es fs : List E} (h : List.Forall₂ (Alike V) es fs) {p : D}
    (hf : Linked V digest p fs) : Linked V digest p es := by
  induction h generalizing p with
  | nil => trivial
  | cons hef _ ih =>
    obtain ⟨ht, hp, hh⟩ := hef
    refine ⟨hp.trans hf.1, ?_, ?_⟩
    · rw [hh, ht]
      exact hf.2.1
    · rw [hh]
      exact ih hf.2.2

/-- As long as two chains from the same start store the same digests, their
entries are alike: an injective digest commits to the hashed texts. -/
theorem linked_diverge (hinj : Function.Injective digest) {p : D} {es fs : List E}
    (he : Linked V digest p es) (hf : Linked V digest p fs) :
    ∃ (k : Nat) (as rest : List E), fs = as ++ rest ∧ List.Forall₂ (Alike V) as (es.take k) ∧
      ∀ f ∈ rest.head?, ∀ e ∈ (es.drop k).head?, V.hash f ≠ V.hash e := by
  induction es generalizing p fs with
  | nil => exact ⟨0, [], fs, rfl, .nil, by simp⟩
  | cons e es ih =>
    cases fs with
    | nil => exact ⟨0, [], [], rfl, .nil, by simp⟩
    | cons f fs =>
      by_cases hh : V.hash f = V.hash e
      · have ht : V.text f = V.text e := hinj (by rw [← hf.2.1, ← he.2.1, hh])
        have hfs : Linked V digest (V.hash e) fs := hh ▸ hf.2.2
        obtain ⟨k, as, rest, rfl, hal, hne⟩ := ih he.2.2 hfs
        exact ⟨k + 1, f :: as, rest, rfl, .cons ⟨ht, hf.1.trans he.1.symm, hh⟩ hal, hne⟩
      · exact ⟨0, [], f :: fs, rfl, .nil, by simpa using hh⟩

variable (V digest) in
/-- What an honest chain `es` cannot tell from itself: entries alike to a prefix
of `es`, followed by entries whose links and digests were computed afresh. -/
def Undetected (p : D) (es fs : List E) : Prop :=
  ∃ (k : Nat) (as rest : List E), fs = as ++ rest ∧ List.Forall₂ (Alike V) as (es.take k) ∧
    (∀ f ∈ rest.head?, ∀ e ∈ (es.drop k).head?, V.hash f ≠ V.hash e) ∧
    Linked V digest (tip V p (es.take k)) rest

theorem linked_iff_undetected (hinj : Function.Injective digest) {p : D} {es fs : List E}
    (he : Linked V digest p es) : Linked V digest p fs ↔ Undetected V digest p es fs := by
  constructor
  · intro hf
    obtain ⟨k, as, rest, rfl, hal, hne⟩ := linked_diverge hinj he hf
    refine ⟨k, as, rest, rfl, hal, hne, ?_⟩
    rw [← tip_alike hal]
    exact ((linked_append V digest p as rest).mp hf).2
  · rintro ⟨k, as, rest, rfl, hal, -, hr⟩
    rw [linked_append, tip_alike hal]
    exact ⟨linked_alike hal (he.take k), hr⟩

end Clawreform.Lib.HashChain
