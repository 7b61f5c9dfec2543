import Mathlib.Data.List.AList
import Mathlib.Logic.Function.Basic
import Mathlib.Data.List.Induction

namespace Clawreform.Lib.Store

/-- A finite map. Its entries stand in an order of their own, as in a hash map. -/
abbrev Map (κ ν : Type*) := AList (fun _ : κ => ν)

variable {κ ν : Type*}

/-- Change every value in place. -/
def mapValues (f : κ → ν → ν) (s : Map κ ν) : Map κ ν :=
  ⟨s.entries.map (Sigma.map id f), s.nodupKeys.map₂ f _⟩

def values (s : Map κ ν) : List ν := s.entries.map (·.2)

def size (s : Map κ ν) : Nat := s.entries.length

@[simp] theorem size_empty : size (∅ : Map κ ν) = 0 := rfl

theorem size_eq_length_keys (s : Map κ ν) : size s = s.keys.length :=
  (List.length_map _).symm

def retain (keep : κ → ν → Bool) (s : Map κ ν) : Map κ ν :=
  ⟨s.entries.filter fun e => keep e.1 e.2, s.nodupKeys.sublist List.filter_sublist⟩

theorem size_retain_le (keep : κ → ν → Bool) (s : Map κ ν) : size (retain keep s) ≤ size s :=
  List.length_filter_le _ _

@[simp] theorem keys_mapValues (f : κ → ν → ν) (s : Map κ ν) :
    (mapValues f s).keys = s.keys := List.map₂_keys f _

@[simp] theorem values_mapValues (f : κ → ν → ν) (s : Map κ ν) :
    values (mapValues f s) = s.entries.map (fun e => f e.1 e.2) := by
  simp [values, mapValues, Function.comp_def, Sigma.map]

variable [DecidableEq κ]

@[simp] theorem lookup_mapValues (f : κ → ν → ν) (s : Map κ ν) (k : κ) :
    (mapValues f s).lookup k = (s.lookup k).map (f k) := List.dlookup_map₂ k

/-- Change the value of one key, if it has one. -/
def adjust (k : κ) (f : ν → ν) (s : Map κ ν) : Map κ ν :=
  mapValues (fun j v => if j = k then f v else v) s

@[simp] theorem keys_adjust (k : κ) (f : ν → ν) (s : Map κ ν) :
    (adjust k f s).keys = s.keys := keys_mapValues _ _

@[simp] theorem lookup_adjust_self (k : κ) (f : ν → ν) (s : Map κ ν) :
    (adjust k f s).lookup k = (s.lookup k).map f := by
  simp [adjust]

theorem lookup_adjust_ne {j k : κ} (h : j ≠ k) (f : ν → ν) (s : Map κ ν) :
    (adjust k f s).lookup j = s.lookup j := by
  simp [adjust, h]

theorem lookup_insert (j k : κ) (v : ν) (s : Map κ ν) :
    (s.insert k v).lookup j = if j = k then some v else s.lookup j := by
  by_cases h : j = k
  · subst h
    simp
  · rw [AList.lookup_insert_ne h, if_neg h]

theorem lookup_erase (j k : κ) (s : Map κ ν) :
    (s.erase k).lookup j = if j = k then none else s.lookup j := by
  by_cases h : j = k
  · subst h
    simp
  · rw [AList.lookup_erase_ne h, if_neg h]

theorem lookup_adjust (j k : κ) (f : ν → ν) (s : Map κ ν) :
    (adjust k f s).lookup j = if j = k then (s.lookup j).map f else s.lookup j := by
  by_cases h : j = k
  · subst h
    simp
  · rw [lookup_adjust_ne h, if_neg h]

theorem mem_entries {s : Map κ ν} {k : κ} {v : ν} :
    ⟨k, v⟩ ∈ s.entries ↔ s.lookup k = some v :=
  AList.mem_lookup_iff.symm

theorem mem_values {s : Map κ ν} {v : ν} : v ∈ values s ↔ ∃ k, s.lookup k = some v := by
  constructor
  · intro h
    obtain ⟨⟨k, w⟩, he, rfl⟩ := List.mem_map.mp h
    exact ⟨k, mem_entries.mp he⟩
  · rintro ⟨k, hk⟩
    exact List.mem_map.mpr ⟨⟨k, v⟩, mem_entries.mpr hk, rfl⟩

theorem size_erase_le (k : κ) (s : Map κ ν) : size (s.erase k) ≤ size s :=
  (List.kerase_sublist k s.entries).length_le

theorem size_insert_le (k : κ) (v : ν) (s : Map κ ν) : size (s.insert k v) ≤ size s + 1 := by
  rw [size_eq_length_keys, AList.keys_insert, List.length_cons, size_eq_length_keys]
  exact Nat.succ_le_succ (List.erase_sublist.length_le)

theorem size_insert_of_mem {k : κ} {s : Map κ ν} (h : k ∈ s) (v : ν) :
    size (s.insert k v) = size s := by
  rw [size_eq_length_keys, AList.keys_insert, List.length_cons, size_eq_length_keys,
    List.length_erase_of_mem (AList.mem_keys.mp h)]
  have hpos := List.length_pos_of_mem (AList.mem_keys.mp h)
  omega

theorem size_insert_of_notMem {k : κ} {s : Map κ ν} (h : k ∉ s) (v : ν) :
    size (s.insert k v) = size s + 1 := by
  rw [size_eq_length_keys, AList.keys_insert, List.length_cons, size_eq_length_keys,
    List.erase_of_not_mem fun hmem => h (AList.mem_keys.mpr hmem)]

theorem size_erase_of_mem {k : κ} {s : Map κ ν} (h : k ∈ s) : size (s.erase k) + 1 = size s := by
  rw [size_eq_length_keys, AList.keys_erase, size_eq_length_keys,
    List.length_erase_of_mem (AList.mem_keys.mp h)]
  have hpos := List.length_pos_of_mem (AList.mem_keys.mp h)
  omega

theorem lookup_retain {keep : κ → ν → Bool} {s : Map κ ν} {k : κ} {v : ν} :
    (retain keep s).lookup k = some v ↔ s.lookup k = some v ∧ keep k v := by
  simp [← mem_entries, retain]

theorem lookup_eraseAll (ks : List κ) (s : Map κ ν) (j : κ) :
    (ks.foldl (fun m k => m.erase k) s).lookup j = if j ∈ ks then none else s.lookup j := by
  induction ks generalizing s with
  | nil => simp
  | cons k ks ih =>
    rw [List.foldl_cons, ih, lookup_erase]
    by_cases hj : j = k <;> simp [hj]

theorem size_eraseAll {ks : List κ} {s : Map κ ν} (hnodup : ks.Nodup) (h : ∀ k ∈ ks, k ∈ s) :
    size (ks.foldl (fun m k => m.erase k) s) + ks.length = size s := by
  induction ks generalizing s with
  | nil => rfl
  | cons k ks ih =>
    obtain ⟨hk, hnodup⟩ := List.nodup_cons.mp hnodup
    have hrest : ∀ j ∈ ks, j ∈ s.erase k := fun j hj =>
      AList.mem_erase.mpr ⟨fun heq => hk (heq ▸ hj), h j (List.mem_cons_of_mem _ hj)⟩
    rw [List.foldl_cons, List.length_cons, ← Nat.add_assoc, ih hnodup hrest,
      size_erase_of_mem (h k (List.mem_cons_self ..))]

theorem lookup_insertAll {key : ν → κ} {vs : List ν} {s : Map κ ν} {k : κ} {v : ν}
    (h : (vs.foldl (fun m w => m.insert (key w) w) s).lookup k = some v) :
    s.lookup k = some v ∨ v ∈ vs ∧ key v = k := by
  induction vs generalizing s with
  | nil => exact .inl h
  | cons w vs ih =>
    rcases ih h with hs | ⟨hv, hk⟩
    · rw [lookup_insert] at hs
      split at hs
      · rename_i hk
        cases hs
        exact .inr ⟨List.mem_cons_self, hk.symm⟩
      · exact .inl hs
    · exact .inr ⟨List.mem_cons_of_mem _ hv, hk⟩

theorem values_insert (k : κ) (v : ν) (s : Map κ ν) :
    values (s.insert k v) = v :: values (s.erase k) := rfl

theorem values_erase_sublist (k : κ) (s : Map κ ν) : (values (s.erase k)).Sublist (values s) :=
  (List.kerase_sublist k s.entries).map _

/-- When values know their keys, the values that name a key are the one under it. -/
theorem filter_values {key : ν → κ} {s : Map κ ν}
    (hkey : ∀ k v, s.lookup k = some v → key v = k) (k : κ) :
    (values s).filter (fun v => key v = k) = (s.lookup k).toList := by
  have hkey' : ∀ e ∈ s.entries, key e.2 = e.1 := fun e he => hkey e.1 e.2 (mem_entries.mp he)
  obtain ⟨l, hl⟩ := s
  show (l.map (·.2)).filter (fun v => key v = k) = (l.dlookup k).toList
  clear hkey
  induction l with
  | nil => rfl
  | cons e l ih =>
    obtain ⟨hfresh, hrest⟩ := List.nodupKeys_cons.mp hl
    have htail := ih hrest fun x hx => hkey' x (List.mem_cons_of_mem _ hx)
    have he := hkey' e List.mem_cons_self
    by_cases hk : k = e.1
    · subst hk
      rw [List.dlookup_eq_none.mpr hfresh] at htail
      rw [List.map_cons, List.filter_cons_of_pos (by simpa using he), htail, List.dlookup_cons_eq]
      rfl
    · rw [List.dlookup_cons_ne _ _ hk, ← htail, List.map_cons, List.filter_cons_of_neg]
      simpa [he] using Ne.symm hk

/-- Every value yields at most one thing, so a key yields one or none. -/
theorem countP_yields {ο : Type*} (g : ν → Option ο) (s : Map κ ν) (k : κ) :
    (s.entries.filterMap fun e => (g e.2).map fun o => (e.1, o)).countP (fun p => p.1 = k) =
      ((s.lookup k).bind g).toList.length := by
  obtain ⟨l, hl⟩ := s
  show _ = ((l.dlookup k).bind g).toList.length
  induction l with
  | nil => rfl
  | cons e l ih =>
    obtain ⟨hfresh, hrest⟩ := List.nodupKeys_cons.mp hl
    have htail := ih hrest
    by_cases he : k = e.1
    · subst he
      rw [List.dlookup_eq_none.mpr hfresh] at htail
      rw [List.dlookup_cons_eq]
      cases hg : g e.2 with
      | none => simpa [hg] using htail
      | some o => simpa [hg] using htail
    · rw [List.dlookup_cons_ne _ _ he]
      cases hg : g e.2 with
      | none => simpa [hg] using htail
      | some o => simpa [hg, Ne.symm he] using htail

/-- The value under a key counts on its own. -/
theorem countP_erase (q : ν → Bool) {s : Map κ ν} {k : κ} {v : ν} (h : s.lookup k = some v) :
    (values s).countP q = (values (s.erase k)).countP q + (q v).toNat := by
  have hkey : k ∈ s.entries.keys := AList.mem_keys.mp (AList.lookup_isSome.mp (by rw [h]; rfl))
  obtain ⟨w, before, after, hbefore, hentries, herase⟩ := List.exists_of_kerase hkey
  have hw : w = v := by
    have hmem : ⟨k, w⟩ ∈ s.entries := by simp [hentries]
    rw [mem_entries, h] at hmem
    exact (Option.some.inj hmem).symm
  subst hw
  have hvalues : values (s.erase k) = before.map (·.2) ++ after.map (·.2) := by
    show (s.entries.kerase k).map (·.2) = _
    rw [herase, List.map_append]
  rw [hvalues, values, hentries, List.map_append, List.map_cons, List.countP_append,
    List.countP_cons, List.countP_append]
  cases q w <;> simp +arith

theorem erase_of_none {s : Map κ ν} {k : κ} (h : s.lookup k = none) : s.erase k = s := by
  have hkey : k ∉ s.entries.keys := fun hmem =>
    AList.lookup_eq_none.mp h (AList.mem_keys.mpr hmem)
  exact AList.ext (List.kerase_of_notMem_keys hkey)

/-- All values have a property. -/
def Every (p : ν → Prop) (s : Map κ ν) : Prop := ∀ k v, s.lookup k = some v → p v

variable {p : ν → Prop} {s : Map κ ν}

instance [DecidablePred p] : Decidable (Every p s) :=
  decidable_of_iff (∀ e ∈ s.entries, p e.2)
    ⟨fun h k v hv => h ⟨k, v⟩ (mem_entries.mpr hv), fun h e he => h e.1 e.2 (mem_entries.mp he)⟩

theorem Every.insert (h : Every p s) {v : ν} (hv : p v) (k : κ) : Every p (s.insert k v) := by
  intro j w hw
  rw [lookup_insert] at hw
  split at hw
  · exact Option.some.inj hw ▸ hv
  · exact h j w hw

theorem Every.erase (h : Every p s) (k : κ) : Every p (s.erase k) := by
  intro j w hw
  rw [lookup_erase] at hw
  split at hw
  · cases hw
  · exact h j w hw

theorem Every.mapValues (h : Every p s) {f : κ → ν → ν} (hf : ∀ k v, p v → p (f k v)) :
    Every p (mapValues f s) := by
  intro j w hw
  rw [lookup_mapValues] at hw
  obtain ⟨v, hv, rfl⟩ := Option.map_eq_some_iff.mp hw
  exact hf j v (h j v hv)

theorem Every.adjust (h : Every p s) (k : κ) {f : ν → ν} (hf : ∀ v, p v → p (f v)) :
    Every p (adjust k f s) :=
  h.mapValues fun j v hv => by
    split
    · exact hf v hv
    · exact hv

theorem Every.retain (h : Every p s) (keep : κ → ν → Bool) : Every p (retain keep s) :=
  fun j w hw => h j w (lookup_retain.mp hw).1

end Clawreform.Lib.Store

namespace Clawreform.Lib.Table

variable {κ ν : Type*} [DecidableEq κ]

/-- The map left by inserting pairs one after the other: the last one wins. -/
def insertAll (pairs : List (κ × ν)) : κ → Option ν :=
  pairs.foldl (fun table p => Function.update table p.1 (some p.2)) (fun _ => none)

@[simp] theorem insertAll_nil (k : κ) : insertAll ([] : List (κ × ν)) k = none := rfl

theorem insertAll_concat (pairs : List (κ × ν)) (p : κ × ν) (k : κ) :
    insertAll (pairs ++ [p]) k = if k = p.1 then some p.2 else insertAll pairs k := by
  simp [insertAll, List.foldl_append, Function.update_apply]

theorem insertAll_append (xs ys : List (κ × ν)) (k : κ) :
    insertAll (xs ++ ys) k = (insertAll ys k).or (insertAll xs k) := by
  induction ys using List.reverseRecOn with
  | nil => simp
  | append_singleton ys p ih =>
    rw [← List.append_assoc, insertAll_concat, insertAll_concat, ih]
    split <;> rfl

theorem mem_of_insertAll {xs : List (κ × ν)} {k : κ} {v : ν} (h : insertAll xs k = some v) :
    (k, v) ∈ xs := by
  induction xs using List.reverseRecOn with
  | nil => cases h
  | append_singleton xs p ih =>
    rw [insertAll_concat] at h
    split at h <;> rename_i hp
    · obtain rfl := Option.some.inj h
      simp [hp]
    · exact List.mem_append_left _ (ih h)

theorem insertAll_eq_none_iff {xs : List (κ × ν)} {k : κ} :
    insertAll xs k = none ↔ ∀ p ∈ xs, p.1 ≠ k := by
  induction xs using List.reverseRecOn with
  | nil => simp
  | append_singleton xs p ih =>
    rw [insertAll_concat]
    constructor
    · intro h q hq
      split at h <;> rename_i hp
      · cases h
      · rcases List.mem_append.mp hq with hq | hq
        · exact ih.mp h q hq
        · obtain rfl := List.mem_singleton.mp hq
          exact fun he => hp he.symm
    · intro h
      rw [if_neg (fun he => h p (by simp) he.symm)]
      exact ih.mpr (fun q hq => h q (List.mem_append_left _ hq))

/-- When all pairs for a key have the same value, that value is found. -/
theorem insertAll_eq_some {xs : List (κ × ν)} {k : κ} {v : ν} (hmem : ∃ p ∈ xs, p.1 = k)
    (hsame : ∀ p ∈ xs, p.1 = k → p.2 = v) : insertAll xs k = some v := by
  cases h : insertAll xs k with
  | none =>
    obtain ⟨p, hp, hk⟩ := hmem
    exact absurd hk (insertAll_eq_none_iff.mp h p hp)
  | some w => rw [← hsame _ (mem_of_insertAll h) rfl]

end Clawreform.Lib.Table
