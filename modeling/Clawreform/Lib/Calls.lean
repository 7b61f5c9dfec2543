import Clawreform.Lib.Run
import Clawreform.Lib.Store

namespace Clawreform.Lib.Calls

open Clawreform.Lib.Run Clawreform.Lib.Store

abbrev CallId := Nat

/-- What a call does, one access to the shared state at a time, from the point where
it stands. -/
structure Machine (σ π ι η ε : Type*) where
  first : ι → π
  advance : η → CallId → σ → π → (σ × π) × List ε

structure System (σ π : Type*) where
  shared : σ
  calls : Map CallId π

/-- A call is made, or one that was made takes its next step. -/
inductive Move (ι η : Type*) where
  | call (id : CallId) (input : ι)
  | step (id : CallId) (env : η)

variable {σ π ι η ε : Type*} (M : Machine σ π ι η ε)

def Machine.step (s : System σ π) : Move ι η → System σ π × List ε
  | .call id input =>
    match s.calls.lookup id with
    | none => (⟨s.shared, s.calls.insert id (M.first input)⟩, [])
    | some _ => (s, [])
  | .step id env =>
    match s.calls.lookup id with
    | none => (s, [])
    | some p =>
      let next := M.advance env id s.shared p
      (⟨next.1.1, s.calls.insert id next.1.2⟩, next.2)

/-- What may happen at a point of a call. -/
def Permits (ok : η → CallId → σ → π → Prop) (s : System σ π) : Move ι η → Prop
  | .call _ _ => True
  | .step id env => ∀ p, s.calls.lookup id = some p → ok env id s.shared p

instance (ok : η → CallId → σ → π → Prop) [∀ env id s p, Decidable (ok env id s p)]
    (s : System σ π) (m : Move ι η) : Decidable (Permits ok s m) :=
  match m with
  | .call _ _ => inferInstanceAs (Decidable True)
  | .step id env => inferInstanceAs (Decidable (∀ p ∈ s.calls.lookup id, ok env id s.shared p))

/-- An assertion on the shared state and one for each call at its point. -/
structure Holds (inv : σ → List ε → Prop) (local_ : CallId → σ → List ε → π → Prop)
    (s : System σ π) (past : List ε) : Prop where
  shared : inv s.shared past
  calls : ∀ id p, s.calls.lookup id = some p → local_ id s.shared past p

/-- A proof outline: an assertion that a call starts with, that each of its steps
takes to the next one, and that no step of another call interferes with. -/
structure Outline (inv : σ → List ε → Prop) (local_ : CallId → σ → List ε → π → Prop)
    (ok : η → CallId → σ → π → Prop) : Prop where
  first : ∀ id s past input, inv s past → local_ id s past (M.first input)
  advance : ∀ env id s past p, inv s past → local_ id s past p → ok env id s p →
    inv (M.advance env id s p).1.1 (past ++ (M.advance env id s p).2) ∧
    local_ id (M.advance env id s p).1.1 (past ++ (M.advance env id s p).2)
      (M.advance env id s p).1.2
  others : ∀ env id s past p other q, other ≠ id → inv s past → local_ id s past p →
    ok env id s p → local_ other s past q →
    local_ other (M.advance env id s p).1.1 (past ++ (M.advance env id s p).2) q

variable {M} {inv : σ → List ε → Prop} {local_ : CallId → σ → List ε → π → Prop}
  {ok : η → CallId → σ → π → Prop}

theorem Outline.step (O : Outline M inv local_ ok) {s : System σ π} {past : List ε}
    (h : Holds inv local_ s past) (m : Move ι η) (hm : Permits ok s m) :
    Holds inv local_ (M.step s m).1 (past ++ (M.step s m).2) := by
  cases m with
  | call id input =>
    simp only [Machine.step]
    split
    · refine ⟨by simpa using h.shared, fun id' p hp => ?_⟩
      rw [lookup_insert] at hp
      split at hp
      · cases hp
        simpa using O.first id' s.shared past input h.shared
      · simpa using h.calls id' p hp
    · simpa using h
  | step id env =>
    simp only [Machine.step]
    split
    · simpa using h
    · rename_i p hp
      have hlocal := h.calls id p hp
      obtain ⟨hshared, hself⟩ := O.advance env id s.shared past p h.shared hlocal (hm p hp)
      refine ⟨hshared, fun id' q hq => ?_⟩
      rw [lookup_insert] at hq
      split at hq
      · rename_i hid
        cases hq
        exact hid ▸ hself
      · rename_i hid
        exact O.others env id s.shared past p id' q hid h.shared hlocal (hm p hp)
          (h.calls id' q hq)

def System.start (s : σ) : System σ π := ⟨s, ∅⟩

theorem holds_start {s : σ} (h : inv s []) : Holds inv local_ (System.start s) [] := by
  refine ⟨h, fun id p hp => ?_⟩
  simp [System.start] at hp

theorem Outline.run (O : Outline M inv local_ ok) {s : σ} (h : inv s []) {ms : List (Move ι η)}
    (hms : Allowed M.step (Permits ok) (.start s) ms) :
    Holds inv local_ (run M.step (.start s) ms).1 (run M.step (.start s) ms).2 :=
  run_invariant_of_allowed M.step (Holds inv local_) (fun _ _ m hs hm => O.step hs m hm)
    (holds_start h) hms

section Progress

variable (M) in
theorem lookup_step_self {s : System σ π} {id : CallId} {p : π} (env : η)
    (h : s.calls.lookup id = some p) :
    (M.step s (.step id env)).1.calls.lookup id = some (M.advance env id s.shared p).1.2 := by
  simp only [Machine.step, h, lookup_insert, if_pos]

def Move.isStepOf (id : CallId) : Move ι η → Bool
  | .call _ _ => false
  | .step id' _ => id' = id

variable (M) in
/-- A call stands still while others move. -/
theorem lookup_step_other {s : System σ π} {id : CallId} {p : π} {m : Move ι η}
    (h : s.calls.lookup id = some p) (hm : m.isStepOf id = false) :
    (M.step s m).1.calls.lookup id = some p := by
  cases m with
  | call id' input =>
    simp only [Machine.step]
    split
    · rename_i hnone
      rw [lookup_insert, if_neg, h]
      rintro rfl
      rw [hnone] at h
      cases h
    · exact h
  | step id' env =>
    have hne : id ≠ id' := fun he => by simp [Move.isStepOf, he] at hm
    simp only [Machine.step]
    split
    · exact h
    · rw [lookup_insert, if_neg hne, h]

theorem lookup_run_of_final {id : CallId} {p : π}
    (hfinal : ∀ env s, (M.advance env id s p).1.2 = p) {s : System σ π}
    (h : s.calls.lookup id = some p) (ms : List (Move ι η)) :
    (run M.step s ms).1.calls.lookup id = some p := by
  induction ms generalizing s with
  | nil => exact h
  | cons m ms ih =>
    apply ih
    cases m with
    | call id' input => exact lookup_step_other M h rfl
    | step id' env =>
      by_cases hid : id' = id
      · subst hid
        rw [lookup_step_self M env h, hfinal]
      · exact lookup_step_other M h (by simp [Move.isStepOf, hid])

/-- A call whose own steps get it closer to its end gets there in as many steps as it
is away from it, whatever the others do. -/
theorem ends_of_rank (good : π → Prop) (rank : π → Nat) (timely : η → π → Prop) {id : CallId}
    (hrank : ∀ env s p, good p → timely env p → good (M.advance env id s p).1.2 ∧
      rank (M.advance env id s p).1.2 ≤ rank p - 1)
    {s : System σ π} {p : π} (h : s.calls.lookup id = some p) (hp : good p)
    {ms : List (Move ι η)}
    (hms : Allowed M.step (Permits fun env id' _ q => id' = id → timely env q) s ms)
    (hcount : rank p ≤ ms.countP (·.isStepOf id)) :
    ∃ q, (run M.step s ms).1.calls.lookup id = some q ∧ good q ∧ rank q = 0 := by
  induction ms generalizing s p with
  | nil => exact ⟨p, h, hp, Nat.le_zero.mp (by simpa using hcount)⟩
  | cons m ms ih =>
    cases hm : m.isStepOf id with
    | false =>
      rw [List.countP_cons_of_neg (by simp [hm])] at hcount
      exact ih (lookup_step_other M h hm) hp hms.2 hcount
    | true =>
      rw [List.countP_cons_of_pos hm] at hcount
      cases m with
      | call id' input => cases hm
      | step id' env =>
        obtain rfl : id' = id := by simpa [Move.isStepOf] using hm
        obtain ⟨hgood, hless⟩ := hrank env s.shared p hp (hms.1 p h rfl)
        exact ih (lookup_step_self M env h) hgood hms.2
          (Nat.le_trans hless (Nat.sub_le_of_le_add hcount))

end Progress

section Counting

variable {q : π → Bool} {s : System σ π} {id : CallId} {p : π}

variable (q) in
/-- The number of calls that stand at certain points. -/
def System.count (s : System σ π) : Nat := (values s.calls).countP q

variable (q) in
/-- The number of calls at such points besides one. -/
def System.others (id : CallId) (s : System σ π) : Nat := (values (s.calls.erase id)).countP q

theorem count_eq_others (h : s.calls.lookup id = some p) :
    s.count q = s.others q id + (q p).toNat := countP_erase q h

variable (M) in
theorem count_step (h : s.calls.lookup id = some p) (env : η) :
    (M.step s (.step id env)).1.count q =
      s.others q id + (q (M.advance env id s.shared p).1.2).toNat := by
  simp only [Machine.step, h, System.count, values_insert, List.countP_cons]
  cases q (M.advance env id s.shared p).1.2 <;> rfl

variable (M) in
theorem count_call (h : s.calls.lookup id = none) (input : ι) :
    (M.step s (.call id input : Move ι η)).1.count q = s.count q + (q (M.first input)).toNat := by
  simp only [Machine.step, h, System.count, values_insert, erase_of_none h, List.countP_cons]
  cases q (M.first input) <;> rfl

theorem others_eq_zero (h : ∀ other, other ≠ id → ∀ p, s.calls.lookup other = some p →
    q p = false) : s.others q id = 0 := by
  simp only [System.others, List.countP_eq_zero, mem_values, Bool.not_eq_true]
  rintro p ⟨other, hp⟩
  rw [lookup_erase] at hp
  split at hp
  · cases hp
  · rename_i hne
    exact h other hne p hp

end Counting
end Clawreform.Lib.Calls
