import Clawreform.Kernel.WorkflowRuns

namespace Clawreform.Kernel.RunEviction

open Clawreform.Lib.Text Clawreform.Lib.Store Clawreform.Types WorkflowEngine

section Sorted

variable {α : Type*} {r : α → α → Prop} {l : List α} {x y : α} {n : Nat}

/-- What is taken from the front of a sorted list comes before what is left. -/
theorem rel_of_mem_take (hsorted : l.Pairwise r) (hx : x ∈ l.take n) (hy : y ∈ l)
    (hleft : y ∉ l.take n) : r x y := by
  rw [← List.take_append_drop n l] at hsorted hy
  exact (List.pairwise_append.mp hsorted).2.2 x hx y ((List.mem_append.mp hy).resolve_left hleft)

end Sorted

section Evict

variable {runs : Map WorkflowRunId WorkflowRun} {id : WorkflowRunId} {run : WorkflowRun}

/-- The runs that are over, with the times they started at. -/
def evictable (runs : Map WorkflowRunId WorkflowRun) : List (WorkflowRunId × DateTime) :=
  runs.entries.filterMap fun e => if isOver e.2 then some (e.1, e.2.startedAt) else none

def oldestFirst (runs : Map WorkflowRunId WorkflowRun) : List (WorkflowRunId × DateTime) :=
  (evictable runs).mergeSort fun a b => a.2 ≤ b.2

theorem evicted_eq (runs : Map WorkflowRunId WorkflowRun) : evicted runs =
    ((oldestFirst runs).take (runs.entries.length - maxRetainedRuns)).map Prod.fst := rfl

theorem isOver_iff : isOver run = true ↔ run.state = .completed ∨ run.state = .failed := by
  unfold isOver
  cases run.state <;> simp

theorem mem_evictable {startedAt : DateTime} : (id, startedAt) ∈ evictable runs ↔
    ∃ r, runs.lookup id = some r ∧ isOver r = true ∧ r.startedAt = startedAt := by
  rw [evictable, List.mem_filterMap]
  constructor
  · rintro ⟨⟨id', r⟩, hentry, heq⟩
    split at heq
    · rename_i hover
      cases heq
      exact ⟨r, mem_entries.mp hentry, hover, rfl⟩
    · cases heq
  · rintro ⟨r, hr, hover, rfl⟩
    exact ⟨⟨id, r⟩, mem_entries.mpr hr, if_pos hover⟩

theorem evictable_nodup (runs : Map WorkflowRunId WorkflowRun) :
    ((evictable runs).map Prod.fst).Nodup := by
  have hsub : ((evictable runs).map Prod.fst).Sublist runs.keys := by
    unfold evictable AList.keys List.keys
    induction runs.entries with
    | nil => exact List.nil_sublist _
    | cons e entries ih =>
      rw [List.filterMap_cons]
      split
      · exact ih.trans (List.sublist_cons_self ..)
      · rename_i b hb
        split at hb
        · cases hb
          exact ih.cons_cons e.1
        · cases hb
  exact runs.keys_nodup.sublist hsub

theorem oldestFirst_sorted (runs : Map WorkflowRunId WorkflowRun) :
    (oldestFirst runs).Pairwise fun a b => a.2 ≤ b.2 := by
  have hsorted := @List.pairwise_mergeSort _ (fun a b : WorkflowRunId × DateTime => a.2 ≤ b.2)
    (fun a b c => by simpa using Int.le_trans) (fun a b => by simpa using Int.le_total _ _)
    (evictable runs)
  simpa [oldestFirst] using hsorted

theorem evicted_nodup (runs : Map WorkflowRunId WorkflowRun) : (evicted runs).Nodup := by
  rw [evicted_eq]
  have hall : ((oldestFirst runs).map Prod.fst).Nodup :=
    ((List.mergeSort_perm ..).map Prod.fst).nodup_iff.mpr (evictable_nodup runs)
  exact hall.sublist ((List.take_sublist ..).map Prod.fst)

/-- The runs dropped started no later than those that are kept although they are over. -/
theorem startedAt_le_of_evicted {id' : WorkflowRunId} {run' : WorkflowRun}
    (hgone : id ∈ evicted runs) (hrun : runs.lookup id = some run)
    (hkept : id' ∉ evicted runs) (hrun' : runs.lookup id' = some run')
    (hover : isOver run' = true) :
    run.startedAt ≤ run'.startedAt := by
  rw [evicted_eq] at hgone hkept
  obtain ⟨⟨id, startedAt⟩, htaken, rfl⟩ := List.mem_map.mp hgone
  obtain ⟨r, hr, -, rfl⟩ :=
    mem_evictable.mp (List.mem_mergeSort.mp (List.mem_of_mem_take htaken))
  obtain rfl : r = run := Option.some.inj (hr.symm.trans hrun)
  have hmem : (id', run'.startedAt) ∈ oldestFirst runs :=
    List.mem_mergeSort.mpr (mem_evictable.mpr ⟨run', hrun', hover, rfl⟩)
  have hleft : (id', run'.startedAt) ∉
      (oldestFirst runs).take (runs.entries.length - maxRetainedRuns) :=
    fun h => hkept (List.mem_map_of_mem h)
  exact rel_of_mem_take (r := fun a b => a.2 ≤ b.2) (oldestFirst_sorted runs) htaken hmem hleft

/-- Either as many runs are dropped as there are over the limit, or all that are over. -/
theorem evicted_enough (runs : Map WorkflowRunId WorkflowRun) :
    (evicted runs).length = runs.entries.length - maxRetainedRuns ∨
      ∀ id r, runs.lookup id = some r → isOver r = true → id ∈ evicted runs := by
  rw [evicted_eq, List.length_map, List.length_take]
  obtain hle | hlt := Nat.le_total (runs.entries.length - maxRetainedRuns) (oldestFirst runs).length
  · exact .inl (Nat.min_eq_left hle)
  · refine .inr fun id r hr hover => ?_
    rw [List.take_of_length_le hlt]
    exact List.mem_map.mpr ⟨(id, r.startedAt),
      List.mem_mergeSort.mpr (mem_evictable.mpr ⟨r, hr, hover, rfl⟩), rfl⟩

/-- What the eviction may do: `before` are the runs with the new one among them. -/
structure Evicts (before after : Map WorkflowRunId WorkflowRun) : Prop where
  unchanged : ∀ id r, after.lookup id = some r → before.lookup id = some r
  terminal : ∀ id r, before.lookup id = some r → after.lookup id = none →
    r.state = .completed ∨ r.state = .failed
  oldest : ∀ id r, before.lookup id = some r → after.lookup id = none →
    ∀ id' r', after.lookup id' = some r' → r'.state = .completed ∨ r'.state = .failed →
      r.startedAt ≤ r'.startedAt
  bounded : size after ≤ maxRetainedRuns ∨
    ∀ id r, after.lookup id = some r → r.state = .pending ∨ r.state = .running

def evict (runs : Map WorkflowRunId WorkflowRun) : Map WorkflowRunId WorkflowRun :=
  (evicted runs).foldl (fun m id => m.erase id) runs

theorem lookup_evict (id : WorkflowRunId) : (evict runs).lookup id =
    if id ∈ evicted runs then none else runs.lookup id := lookup_eraseAll _ _ _

theorem mem_of_lookup_evict (h : (evict runs).lookup id = some run) :
    id ∉ evicted runs ∧ runs.lookup id = some run := by
  rw [lookup_evict] at h
  split at h
  · cases h
  · exact ⟨‹_›, h⟩

theorem evicted_of_lookup_evict (hrun : runs.lookup id = some run)
    (h : (evict runs).lookup id = none) : id ∈ evicted runs := by
  rw [lookup_evict] at h
  by_contra hmem
  rw [if_neg hmem, hrun] at h
  cases h

theorem evicts (runs : Map WorkflowRunId WorkflowRun) : Evicts runs (evict runs) where
  unchanged _ _ h := (mem_of_lookup_evict h).2
  terminal id r hr hnone := by
    obtain ⟨r', hr', hover⟩ := mem_evicted (evicted_of_lookup_evict hr hnone)
    obtain rfl := Option.some.inj (hr.symm.trans hr')
    exact isOver_iff.mp hover
  oldest id r hr hnone id' r' hr' hover := by
    obtain ⟨hkept, hr'⟩ := mem_of_lookup_evict hr'
    exact startedAt_le_of_evicted (evicted_of_lookup_evict hr hnone) hr hkept hr'
      (isOver_iff.mpr hover)
  bounded := by
    have hstored : ∀ id ∈ evicted runs, id ∈ runs := fun id hid => by
      obtain ⟨r, hr, -⟩ := mem_evicted hid
      exact AList.lookup_isSome.mp (hr ▸ rfl)
    have hsize : size (evict runs) + (evicted runs).length = size runs :=
      size_eraseAll (evicted_nodup runs) hstored
    obtain henough | hall := evicted_enough runs
    · left
      unfold size at *
      omega
    · right
      intro id r h
      obtain ⟨hkept, hr⟩ := mem_of_lookup_evict h
      have hnot : ¬ isOver r = true := fun hover => hkept (hall id r hr hover)
      rw [isOver_iff] at hnot
      cases hstate : r.state <;> simp_all

end Evict

/-- Within the limit nothing needs to be dropped. -/
theorem evicts_self {runs : Map WorkflowRunId WorkflowRun} (h : size runs ≤ maxRetainedRuns) :
    Evicts runs runs where
  unchanged _ _ hr := hr
  terminal _ _ hr hnone := nomatch hr.symm.trans hnone
  oldest _ _ hr hnone := nomatch hr.symm.trans hnone
  bounded := .inl h

/-- Creating a run drops only runs that are over, the oldest of them first, until the limit is
met or no run is over. The new run stays. -/
theorem createRun_evicts {s s' : WorkflowEngine} {workflowId : WorkflowId} {input : Str}
    {runId : WorkflowRunId} {now : DateTime}
    (h : s.createRun workflowId input runId now = some s') :
    ∃ run : WorkflowRun, run.id = runId ∧ run.state = .pending ∧ run.startedAt = now ∧
      Evicts (s.runs.insert runId run) s'.runs ∧ s'.runs.lookup runId = some run := by
  obtain ⟨r, hr, -⟩ := (createRun_stored h).1
  obtain ⟨workflow, -, rfl⟩ := Option.map_eq_some_iff.mp h
  let run : WorkflowRun :=
    ⟨runId, workflowId, workflow.name, input, .pending, [], none, none, now, none⟩
  have hevicts : Evicts (s.runs.insert runId run)
      (if maxRetainedRuns < (s.runs.insert runId run).entries.length then
        evict (s.runs.insert runId run) else s.runs.insert runId run) := by
    split
    · exact evicts _
    · exact evicts_self (Nat.not_lt.mp ‹_›)
  refine ⟨run, rfl, rfl, rfl, hevicts, ?_⟩
  have hsame := hevicts.unchanged runId r hr
  rw [AList.lookup_insert] at hsame
  rw [← Option.some.inj hsame] at hr
  exact hr

/-- A second run of the workflow is stored next to the first one. -/
theorem createRun_evicts_second :
    let s := singleStepEngine .sequential .fail
    ∃ s' run, s.createRun 1 ['m'] 3 60 = some s' ∧ run.state = .pending ∧
      Evicts (s.runs.insert 3 run) s'.runs ∧ s'.runs.lookup 3 = some run := by
  intro s
  obtain ⟨s', h⟩ : ∃ s', s.createRun 1 ['m'] 3 60 = some s' := Option.isSome_iff_exists.mp rfl
  obtain ⟨run, -, hpending, -, hevicts, hstored⟩ := createRun_evicts h
  exact ⟨s', run, h, hpending, hevicts, hstored⟩

end Clawreform.Kernel.RunEviction
