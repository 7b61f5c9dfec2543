import Mathlib.Data.List.Induction

namespace Clawreform.Lib.Trace

variable {ε : Type*} {p q : List ε → ε → Prop} {trace : List ε} {e : ε}

/-- Every event of a trace stands as it should to the events in front of it. -/
def Always (p : List ε → ε → Prop) (trace : List ε) : Prop :=
  ∀ past e rest, trace = past ++ e :: rest → p past e

instance [∀ past e, Decidable (p past e)] : Decidable (Always p trace) :=
  decidable_of_iff (∀ i : Fin trace.length, p (trace.take i) (trace.get i)) <| by
    constructor
    · rintro h past e rest rfl
      have hi := h ⟨past.length, by simp⟩
      simpa using hi
    · intro h i
      exact h _ _ (trace.drop (i + 1)) (by simp)

theorem always_nil : Always p [] := by
  intro past e rest h
  exact absurd h.symm (by simp)

theorem always_concat : Always p (trace ++ [e]) ↔ Always p trace ∧ p trace e := by
  constructor
  · intro h
    refine ⟨fun past x rest he => h past x (rest ++ [e]) ?_, h trace e [] rfl⟩
    rw [he, List.append_assoc, List.cons_append]
  · rintro ⟨htrace, he⟩ past x rest h
    cases rest using List.reverseRecOn with
    | nil =>
      obtain ⟨rfl, hx⟩ := List.append_inj' h rfl
      obtain rfl : e = x := by simpa using hx
      exact he
    | append_singleton rest y =>
      rw [← List.cons_append, ← List.append_assoc] at h
      exact htrace past x rest (List.append_inj' h rfl).1

theorem Always.imp (h : Always p trace) (hpq : ∀ past e, p past e → q past e) :
    Always q trace :=
  fun past e rest he => hpq past e (h past e rest he)

theorem Always.append {more : List ε} (h : Always p trace) (hmore : ∀ e ∈ more, ∀ past, p past e) :
    Always p (trace ++ more) := by
  induction more using List.reverseRecOn with
  | nil => rwa [List.append_nil]
  | append_singleton more e ih =>
    rw [← List.append_assoc, always_concat]
    exact ⟨ih fun x hx => hmore x (List.mem_append_left _ hx), hmore e (by simp) _⟩

/-- The events of a later part stand as they should to all that is in front of them. -/
theorem always_append {more : List ε} :
    Always p (trace ++ more) ↔ Always p trace ∧ Always (fun past e => p (trace ++ past) e) more := by
  induction more using List.reverseRecOn with
  | nil => simp [always_nil]
  | append_singleton more e ih =>
    rw [← List.append_assoc, always_concat, ih, always_concat, and_assoc]

theorem always_cons : Always p (e :: trace) ↔
    p [] e ∧ Always (fun past x => p (e :: past) x) trace := by
  have hsingle : Always p [e] ↔ p [] e := by
    rw [← List.nil_append [e], always_concat]
    exact and_iff_right always_nil
  rw [← List.singleton_append, always_append, hsingle]
  rfl

/-- What holds of a trace holds of its beginnings. -/
theorem Always.left {more : List ε} (h : Always p (trace ++ more)) : Always p trace := by
  intro past e rest he
  exact h past e (rest ++ more) (by rw [he, List.append_assoc, List.cons_append])

/-- Events that nothing is asked of and nothing depends on may be left out. -/
theorem always_filter {keep : ε → Bool} (hquiet : ∀ past e, keep e = false → p past e)
    (hpast : ∀ past e, p past e ↔ p (past.filter keep) e) :
    Always p trace ↔ Always p (trace.filter keep) := by
  induction trace using List.reverseRecOn with
  | nil => rfl
  | append_singleton trace e ih =>
    rw [List.filter_append, always_concat, ih]
    cases he : keep e with
    | true =>
      rw [List.filter_cons_of_pos he, List.filter_nil, always_concat, hpast trace e]
    | false =>
      rw [List.filter_cons_of_neg (by simp [he]), List.filter_nil, List.append_nil]
      exact ⟨fun h => h.1, fun h => ⟨h, hquiet trace e he⟩⟩

/-- A place in what is kept of a trace is a place in the trace. -/
theorem filter_split {keep : ε → Bool} {before between : List ε}
    (h : trace.filter keep = before ++ e :: between) :
    ∃ before' between', trace = before' ++ e :: between' ∧ before'.filter keep = before ∧
      between'.filter keep = between := by
  obtain ⟨xs, ys, rfl, hxs, hys⟩ := List.filter_eq_append_iff.mp h
  obtain ⟨zs, ws, rfl, hzs, -, hws⟩ := List.filter_eq_cons_iff.mp hys
  refine ⟨xs ++ zs, ws, by rw [List.append_assoc], ?_, hws⟩
  rw [List.filter_append, hxs, List.filter_eq_nil_iff.mpr hzs, List.append_nil]

end Clawreform.Lib.Trace
