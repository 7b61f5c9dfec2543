import Clawreform.Lib.Text

namespace Clawreform.Lib.Toml

open Clawreform.Lib.Text

inductive Value where
  | string (text : Str)
  | integer (n : Int64)
  | float (bits : UInt64)
  | boolean (b : Bool)
  | datetime (text : Str)
  | array (items : List Value)
  | table (entries : List (Str × Value))

abbrev Table := List (Str × Value)

def asStr : Value → Option Str
  | .string text => some text
  | _ => none

def remove (key : Str) (entries : Table) : Table := entries.filter (·.1 ≠ key)

/-- An entry that is there gets its new value. -/
def replace (key : Str) (value : Value) (entries : Table) : Table :=
  entries.map fun e => if e.1 = key then (key, value) else e

section Lookups

variable {key k : Str} {value : Value} {entries : Table}

theorem lookup_entry : List.lookup k ((key, value) :: entries) =
    if k = key then some value else entries.lookup k := by
  rw [List.lookup_cons]
  by_cases hk : k = key
  · simp [hk]
  · rw [beq_eq_false_iff_ne.mpr hk, if_neg hk]

theorem keys_replace : (replace key value entries).map Prod.fst = entries.map Prod.fst := by
  rw [replace, List.map_map]
  apply List.map_congr_left
  intro e _
  by_cases h : e.1 = key
  · simp [h]
  · simp [h]

theorem lookup_replace : (replace key value entries).lookup k =
    if k = key then (entries.lookup k).map fun _ => value else entries.lookup k := by
  induction entries with
  | nil => simp [replace]
  | cons e entries ih =>
    obtain ⟨k', v⟩ := e
    rw [replace] at ih
    rw [replace, List.map_cons, lookup_entry]
    by_cases hk' : k' = key
    · rw [if_pos hk', lookup_entry, ih, hk']
      by_cases hk : k = key
      · rw [if_pos hk, if_pos hk, if_pos hk]
        rfl
      · rw [if_neg hk, if_neg hk, if_neg hk, if_neg hk]
    · simp only [if_neg hk', lookup_entry, ih]
      by_cases hk : k = key
      · have hne : k ≠ k' := by
          rw [hk]
          exact Ne.symm hk'
        rw [if_pos hk, if_pos hk, if_neg hne, if_neg hne]
      · rw [if_neg hk, if_neg hk]

theorem lookup_eq_none_iff : entries.lookup k = none ↔ k ∉ entries.map Prod.fst := by
  induction entries with
  | nil => simp
  | cons e entries ih =>
    obtain ⟨k', v⟩ := e
    rw [lookup_entry, List.map_cons, List.mem_cons, not_or]
    by_cases hk : k = k'
    · simp [hk]
    · rw [if_neg hk, ih, and_iff_right hk]

theorem mem_of_lookup (h : entries.lookup k = some value) : (k, value) ∈ entries := by
  induction entries with
  | nil => cases h
  | cons e entries ih =>
    obtain ⟨k', v⟩ := e
    rw [lookup_entry] at h
    split at h
    · rename_i hk
      cases h
      rw [hk]
      exact List.mem_cons_self
    · exact List.mem_cons_of_mem _ (ih h)

end Lookups

section WellFormed

/-- In every table that can be merged a key stands once. -/
inductive WellFormed : Value → Prop where
  | table {entries : Table} (keys : (entries.map Prod.fst).Nodup)
      (values : ∀ e ∈ entries, WellFormed e.2) : WellFormed (.table entries)
  | other {v : Value} (h : ∀ entries, v ≠ .table entries) : WellFormed v

theorem WellFormed.value {entries : Table} (h : WellFormed (.table entries))
    {e : Str × Value} (he : e ∈ entries) : WellFormed e.2 := by
  cases h with
  | table _ values => exact values e he
  | other h => exact absurd rfl (h _)

theorem WellFormed.keys {entries : Table} (h : WellFormed (.table entries)) :
    (entries.map Prod.fst).Nodup := by
  cases h with
  | table keys _ => exact keys
  | other h => exact absurd rfl (h _)

theorem WellFormed.remove {entries : Table} (h : WellFormed (.table entries)) (key : Str) :
    WellFormed (.table (remove key entries)) := by
  refine .table ?_ fun e he => h.value (List.mem_of_mem_filter he)
  exact h.keys.sublist (List.filter_sublist.map Prod.fst)

/-- `r` is `base` with `top` over it: tables are merged key by key, and everything else is
replaced. -/
inductive Overlays : Value → Value → Value → Prop where
  | tables {base top r : Table} (merged : Str → Value)
      (keeps : ∀ k, top.lookup k = none → r.lookup k = base.lookup k)
      (adds : ∀ k, base.lookup k = none → r.lookup k = top.lookup k)
      (both : ∀ k x y, base.lookup k = some x → top.lookup k = some y →
        r.lookup k = some (merged k))
      (merges : ∀ k x y, base.lookup k = some x → top.lookup k = some y → Overlays x y (merged k)) :
      Overlays (.table base) (.table top) (.table r)
  | replaces {base top : Value}
      (h : ∀ entries entries', base = .table entries → top ≠ .table entries') :
      Overlays base top top

end WellFormed

/-- A value as a parser gives it. -/
structure Document where
  value : Value
  wellFormed : WellFormed value

end Clawreform.Lib.Toml
