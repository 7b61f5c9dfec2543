import Mathlib.Data.List.Basic

namespace Clawreform.Lib.Run

variable {σ ι ο : Type*}

/-- Feed a state machine a list of inputs and collect what it puts out. -/
def run (step : σ → ι → σ × List ο) (s : σ) : List ι → σ × List ο
  | [] => (s, [])
  | i :: is =>
    let p := step s i
    let q := run step p.1 is
    (q.1, p.2 ++ q.2)

variable (step : σ → ι → σ × List ο)

@[simp] theorem run_nil (s : σ) : run step s [] = (s, []) := rfl

@[simp] theorem run_cons (s : σ) (i : ι) (is : List ι) :
    run step s (i :: is) = ((run step (step s i).1 is).1,
      (step s i).2 ++ (run step (step s i).1 is).2) := rfl

theorem run_append (s : σ) (is js : List ι) :
    run step s (is ++ js) = ((run step (run step s is).1 js).1,
      (run step s is).2 ++ (run step (run step s is).1 js).2) := by
  induction is generalizing s with
  | nil => rfl
  | cons i is ih => rw [List.cons_append, run_cons, ih, run_cons, List.append_assoc]

theorem run_state (s : σ) (is : List ι) :
    (run step s is).1 = is.foldl (fun s i => (step s i).1) s := by
  induction is generalizing s with
  | nil => rfl
  | cons i is ih => rw [run_cons, ih, List.foldl_cons]

/-- Inputs that make two machines do the same, one by one, give the same run. -/
theorem run_forall₂ {κ : Type*} {step' : σ → κ → σ × List ο} {R : ι → κ → Prop}
    (hstep : ∀ s i k, R i k → step s i = step' s k) {is : List ι} {ks : List κ}
    (h : List.Forall₂ R is ks) (s : σ) : run step s is = run step' s ks := by
  induction h generalizing s with
  | nil => rfl
  | cons hik _ ih => rw [run_cons, run_cons, hstep s _ _ hik, ih]

/-- Inputs that are passed over, or read and then acted upon. -/
theorem run_filterMap {κ : Type*} {step' : σ → κ → σ × List ο} {read : ι → Option κ}
    (hstep : ∀ s i, step s i = (read i).elim (s, []) (step' s)) (s : σ) (is : List ι) :
    run step s is = run step' s (is.filterMap read) := by
  induction is generalizing s with
  | nil => rfl
  | cons i is ih =>
    rw [run_cons, hstep, ih, List.filterMap_cons]
    cases read i with
    | none => rfl
    | some k => rfl

/-- What holds of a state and the output so far, and survives every step, holds
after every run. -/
theorem run_invariant {inv : σ → List ο → Prop}
    (hstep : ∀ s os i, inv s os → inv (step s i).1 (os ++ (step s i).2))
    {s : σ} {os : List ο} (h : inv s os) (is : List ι) :
    inv (run step s is).1 (os ++ (run step s is).2) := by
  induction is generalizing s os with
  | nil => simpa using h
  | cons i is ih =>
    rw [run_cons, ← List.append_assoc]
    exact ih (hstep s os i h)

/-- Each input is allowed in the state it is fed to. -/
def Allowed (ok : σ → ι → Prop) (s : σ) : List ι → Prop
  | [] => True
  | i :: is => ok s i ∧ Allowed ok (step s i).1 is

instance decidableAllowed {ok : σ → ι → Prop} [∀ s i, Decidable (ok s i)] :
    (s : σ) → (is : List ι) → Decidable (Allowed step ok s is)
  | _, [] => inferInstanceAs (Decidable True)
  | s, i :: is =>
    have : Decidable (Allowed step ok (step s i).1 is) := decidableAllowed _ is
    inferInstanceAs (Decidable (ok s i ∧ Allowed step ok (step s i).1 is))

/-- A run is allowed when each input is allowed behind the ones in front of it. -/
theorem allowed_iff_splits {ok : σ → ι → Prop} {s : σ} {is : List ι} : Allowed step ok s is ↔
    ∀ before i after, is = before ++ i :: after → ok (run step s before).1 i := by
  induction is generalizing s with
  | nil => simp [Allowed]
  | cons i is ih =>
    constructor
    · rintro ⟨hi, his⟩ before j after hsplit
      cases before with
      | nil =>
        obtain ⟨rfl, -⟩ := List.cons.inj hsplit
        exact hi
      | cons k before =>
        obtain ⟨rfl, htail⟩ := List.cons.inj hsplit
        exact ih.mp his before j after htail
    · intro h
      refine ⟨h [] i is rfl, ih.mpr fun before j after hsplit => ?_⟩
      exact h (i :: before) j after (by rw [hsplit, List.cons_append])

/-- What an invariant makes of the allowed steps, and they of it. -/
theorem allowed_of_allowed (inv : σ → Prop) {ok ok' : σ → ι → Prop}
    (hstep : ∀ s i, inv s → ok s i → ok' s i ∧ inv (step s i).1) {s : σ} {is : List ι} (h : inv s)
    (his : Allowed step ok s is) : Allowed step ok' s is := by
  induction is generalizing s with
  | nil => trivial
  | cons i is ih =>
    obtain ⟨hi, hrest⟩ := his
    obtain ⟨hok, hinv⟩ := hstep s i h hi
    exact ⟨hok, ih hinv hrest⟩

theorem allowed_of_forall {ok : ι → Prop} {s : σ} {is : List ι} (h : ∀ i ∈ is, ok i) :
    Allowed step (fun _ i => ok i) s is := by
  induction is generalizing s with
  | nil => trivial
  | cons i is ih => exact ⟨h i List.mem_cons_self, ih fun j hj => h j (List.mem_cons_of_mem _ hj)⟩

/-- All that a run puts out has a property when each step sees to it, in the states that the steps
lead to. -/
theorem forall_run_iff_allowed_of_inv (inv : σ → Prop) {p : ο → Prop} {ok : σ → ι → Prop}
    (hinv : ∀ s i, inv s → inv (step s i).1)
    (hstep : ∀ s i, inv s → ((∀ o ∈ (step s i).2, p o) ↔ ok s i)) {s : σ} (h : inv s)
    (is : List ι) : (∀ o ∈ (run step s is).2, p o) ↔ Allowed step ok s is := by
  induction is generalizing s with
  | nil => simp [Allowed]
  | cons i is ih =>
    rw [run_cons, List.forall_mem_append, hstep s i h, ih (hinv s i h)]
    rfl

theorem forall_run_iff_allowed {p : ο → Prop} {ok : σ → ι → Prop}
    (hstep : ∀ s i, (∀ o ∈ (step s i).2, p o) ↔ ok s i) (s : σ) (is : List ι) :
    (∀ o ∈ (run step s is).2, p o) ↔ Allowed step ok s is :=
  forall_run_iff_allowed_of_inv step (fun _ => True) (fun _ _ _ => trivial)
    (fun s i _ => hstep s i) trivial is

/-- What survives every allowed step holds after every run of allowed steps. -/
theorem run_invariant_of_allowed (inv : σ → List ο → Prop) {ok : σ → ι → Prop}
    (hstep : ∀ s os i, inv s os → ok s i → inv (step s i).1 (os ++ (step s i).2))
    {s : σ} (h : inv s []) {is : List ι} (his : Allowed step ok s is) :
    inv (run step s is).1 (run step s is).2 := by
  have hrun : ∀ os, inv s os → inv (run step s is).1 (os ++ (run step s is).2) := by
    clear h
    induction is generalizing s with
    | nil =>
      intro os hs
      simpa using hs
    | cons i is ih =>
      intro os hs
      have hi := hstep s os i hs his.1
      rw [run_cons, ← List.append_assoc]
      exact ih his.2 _ hi
  exact hrun [] h

/-- Where the allowed steps are the ones that keep an invariant of the state and the output, a run
keeps it all along exactly when its steps are allowed. -/
theorem forall_prefix_run_iff_allowed {inv : σ → List ο → Prop} {ok : σ → ι → Prop}
    (hstep : ∀ s os i, inv s os → (inv (step s i).1 (os ++ (step s i).2) ↔ ok s i)) {s : σ}
    {os : List ο} (h : inv s os) (is : List ι) :
    (∀ js, js <+: is → inv (run step s js).1 (os ++ (run step s js).2)) ↔ Allowed step ok s is := by
  induction is generalizing s os with
  | nil => simpa [Allowed] using h
  | cons i is ih =>
    constructor
    · intro hall
      have hi : inv (step s i).1 (os ++ (step s i).2) := by
        simpa using hall [i] ⟨is, rfl⟩
      refine ⟨(hstep s os i h).mp hi, (ih hi).mp fun js hjs => ?_⟩
      rw [List.append_assoc]
      exact hall (i :: js) ((List.prefix_cons_inj i).mpr hjs)
    · rintro ⟨hok, hrest⟩ js hjs
      cases js with
      | nil => simpa using h
      | cons j js =>
        obtain ⟨rfl, htail⟩ := List.cons_prefix_cons.mp hjs
        have hj := (ih ((hstep s os j h).mpr hok)).mpr hrest js htail
        rwa [List.append_assoc] at hj

/-- Where the allowed steps are the ones that keep an invariant, a run keeps it
all along exactly when its steps are allowed. -/
theorem forall_prefix_iff_allowed {inv : σ → Prop} {ok : σ → ι → Prop}
    (hstep : ∀ s i, inv s → (inv (step s i).1 ↔ ok s i)) {s : σ} (h : inv s) (is : List ι) :
    (∀ js, js <+: is → inv (run step s js).1) ↔ Allowed step ok s is :=
  @forall_prefix_run_iff_allowed _ _ _ step (fun s _ => inv s) ok (fun s _ i => hstep s i) s [] h is

end Clawreform.Lib.Run
