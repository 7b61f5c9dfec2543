import Clawreform.Lib.Text

namespace Clawreform.Lib.PathRouter

open Clawreform.Lib.Text

/-- What a segment of a pattern stands for: itself, any text that is not empty, or all
that is left of the path. -/
inductive Segment where
  | literal (text : Str)
  | param
  | rest
  deriving DecidableEq

section Segments

/-- The texts between the slashes of a path. -/
@[grind =] def segments : Str → List Str
  | [] => [[]]
  | c :: path =>
    if c = '/' then [] :: segments path
    else
      match segments path with
      | [] => [[c]]
      | s :: ss => (c :: s) :: ss

def unsegments : List Str → Str
  | [] => []
  | [s] => s
  | s :: t :: ss => s ++ '/' :: unsegments (t :: ss)

theorem segments_ne_nil (path : Str) : segments path ≠ [] := by
  cases path with
  | nil => simp [segments]
  | cons c path =>
    simp only [segments]
    split
    · simp
    · split <;> simp

theorem segments_append {s : Str} (h : '/' ∉ s) (path : Str) :
    segments (s ++ '/' :: path) = s :: segments path := by
  induction s with
  | nil => simp [segments]
  | cons c s ih =>
    obtain ⟨hc, hs⟩ := not_or.mp (mt List.mem_cons.mpr h)
    rw [List.cons_append, segments, if_neg (Ne.symm hc), ih hs]

theorem segments_flatMap {ts : List Str} (h : ∀ t ∈ ts, '/' ∉ t) (path : Str) :
    segments (ts.flatMap (· ++ ['/']) ++ path) = ts ++ segments path := by
  induction ts with
  | nil => rfl
  | cons t ts ih =>
    obtain ⟨ht, hts⟩ := List.forall_mem_cons.mp h
    rw [List.flatMap_cons, List.append_assoc, List.append_assoc, List.singleton_append,
      segments_append ht, ih hts, List.cons_append]

theorem unsegments_segments (path : Str) : unsegments (segments path) = path := by
  induction path with
  | nil => rfl
  | cons c path ih =>
    simp only [segments]
    split
    · rename_i hc
      cases hsegs : segments path with
      | nil => exact absurd hsegs (segments_ne_nil path)
      | cons s ss =>
        rw [hsegs] at ih
        rw [unsegments, ih, List.nil_append, hc]
    · cases hsegs : segments path with
      | nil => exact absurd hsegs (segments_ne_nil path)
      | cons s ss =>
        rw [hsegs] at ih
        cases ss with
        | nil => exact congrArg (c :: ·) ih
        | cons t ss => exact congrArg (c :: ·) ih

theorem segments_injective : Function.Injective segments :=
  Function.LeftInverse.injective unsegments_segments

theorem subset_of_mem_segments {s path : Str} (h : s ∈ segments path) : s ⊆ path := by
  induction path generalizing s with
  | nil =>
    obtain rfl : s = [] := by simpa [segments] using h
    exact List.nil_subset _
  | cons c path ih =>
    simp only [segments] at h
    split at h
    · obtain rfl | hs := List.mem_cons.mp h
      · exact List.nil_subset _
      · exact List.Subset.trans (ih hs) (List.subset_cons_self c path)
    · split at h
      · obtain rfl : s = [c] := by simpa using h
        exact List.cons_subset_cons c (List.nil_subset _)
      · rename_i t ts hsegs
        obtain rfl | hs := List.mem_cons.mp h
        · exact List.cons_subset_cons c (ih (by rw [hsegs]; exact List.mem_cons_self))
        · have htail : s ⊆ path := ih (by rw [hsegs]; exact List.mem_cons_of_mem t hs)
          exact List.Subset.trans htail (List.subset_cons_self c path)

theorem unsegments_append (ss : List Str) {ts : List Str} (h : ts ≠ []) :
    unsegments (ss ++ ts) = ss.flatMap (· ++ ['/']) ++ unsegments ts := by
  induction ss with
  | nil => rfl
  | cons s ss ih =>
    cases hts : ss ++ ts with
    | nil => simp_all
    | cons u us =>
      rw [List.cons_append, hts, unsegments, ← hts, ih]
      simp

end Segments

section Patterns

/-- Segments in braces are parameters, with a star in front of the name for the rest. -/
def parsePattern (path : Str) : List Segment :=
  (segments path).map fun s =>
    match s with
    | '\x7b' :: '*' :: _ => .rest
    | '\x7b' :: _ => .param
    | _ => .literal s

theorem parsePattern_literals {path : Str} (h : '\x7b' ∉ path) :
    parsePattern path = (segments path).map .literal := by
  apply List.map_congr_left
  intro s hs
  have hbrace : '\x7b' ∉ s := mt (subset_of_mem_segments hs ·) h
  split
  · exact absurd List.mem_cons_self hbrace
  · exact absurd List.mem_cons_self hbrace
  · rfl

theorem segments_of_literals {path : Str} {ts : List Str}
    (h : parsePattern path = ts.map .literal) : segments path = ts := by
  rw [parsePattern] at h
  generalize segments path = ss at h
  induction ss generalizing ts with
  | nil => exact (List.map_eq_nil_iff.mp h.symm).symm
  | cons s ss ih =>
    cases ts with
    | nil => cases h
    | cons t ts =>
      simp only [List.map_cons, List.cons.injEq] at h
      obtain ⟨hhead, htail⟩ := h
      have hst : s = t := by
        split at hhead
        · cases hhead
        · cases hhead
        · exact Segment.literal.inj hhead
      rw [hst, ih htail]

@[grind =] def accepts : List Segment → List Str → Bool
  | [], [] => true
  | .literal t :: p, s :: ss => s = t && accepts p ss
  | .param :: p, s :: ss => s ≠ [] && accepts p ss
  | [.rest], s :: ss => s :: ss ≠ [[]]
  | _, _ => false

variable {ρ : Type*}

/-- The routes whose patterns go on with a segment. -/
def follow (keep : Segment → Bool) (routes : List (List Segment × ρ)) :
    List (List Segment × ρ) :=
  routes.filterMap fun r =>
    match r.1 with
    | segment :: p => if keep segment then some (p, r.2) else none
    | [] => none

/-- Literal segments go before parameters, and these before the rest of the path. -/
def find : List Str → List (List Segment × ρ) → Option ρ
  | [], routes => (routes.find? (·.1 = [])).map (·.2)
  | s :: ss, routes =>
    ((find ss (follow (· = .literal s) routes)).or
      (if s = [] then none else find ss (follow (· = .param) routes))).or
      (if s :: ss = [[]] then none else (routes.find? (·.1 = [.rest])).map (·.2))

theorem mem_follow {keep : Segment → Bool} {routes : List (List Segment × ρ)} {p : List Segment}
    {r : ρ} : (p, r) ∈ follow keep routes ↔ ∃ segment, keep segment ∧ (segment :: p, r) ∈ routes := by
  simp only [follow, List.mem_filterMap]
  constructor
  · rintro ⟨⟨q, r'⟩, hmem, hq⟩
    cases q with
    | nil => cases hq
    | cons segment q =>
      simp only [Option.ite_none_right_eq_some, Option.some.injEq, Prod.mk.injEq] at hq
      obtain ⟨hkeep, rfl, rfl⟩ := hq
      exact ⟨segment, hkeep, hmem⟩
  · rintro ⟨segment, hkeep, hmem⟩
    exact ⟨(segment :: p, r), hmem, by simp [hkeep]⟩

theorem mem_of_find? {routes : List (List Segment × ρ)} {p : List Segment} {r : ρ}
    (h : (routes.find? (·.1 = p)).map (·.2) = some r) : (p, r) ∈ routes := by
  obtain ⟨⟨q, r'⟩, hfind, rfl⟩ := Option.map_eq_some_iff.mp h
  have hq := List.find?_some hfind
  obtain rfl : q = p := by simpa using hq
  exact List.mem_of_find?_eq_some hfind

/-- A route that is found is one whose pattern accepts the path. -/
theorem find_sound {ss : List Str} {routes : List (List Segment × ρ)} {r : ρ}
    (h : find ss routes = some r) : ∃ p, (p, r) ∈ routes ∧ accepts p ss := by
  induction ss generalizing routes with
  | nil => exact ⟨[], mem_of_find? h, rfl⟩
  | cons s ss ih =>
    simp only [find, Option.or_eq_some_iff, Option.or_eq_none_iff] at h
    rcases h with (hliteral | ⟨-, hparam⟩) | ⟨-, hrest⟩
    · obtain ⟨p, hmem, hp⟩ := ih hliteral
      obtain ⟨segment, hkeep, hroute⟩ := mem_follow.mp hmem
      obtain rfl : segment = .literal s := by simpa using hkeep
      exact ⟨_, hroute, by simpa [accepts] using hp⟩
    · split at hparam
      · cases hparam
      · rename_i hs
        obtain ⟨p, hmem, hp⟩ := ih hparam
        obtain ⟨segment, hkeep, hroute⟩ := mem_follow.mp hmem
        obtain rfl : segment = .param := by simpa using hkeep
        exact ⟨_, hroute, by simpa [accepts, hs] using hp⟩
    · split at hrest
      · cases hrest
      · rename_i hne
        exact ⟨_, mem_of_find? hrest, decide_eq_true hne⟩

/-- A pattern without parameters goes before all others. -/
theorem find_literals {ts : List Str} {routes : List (List Segment × ρ)} {r : ρ}
    (h : (ts.map .literal, r) ∈ routes) :
    ∃ r', find ts routes = some r' ∧ (ts.map .literal, r') ∈ routes := by
  induction ts generalizing routes with
  | nil =>
    cases hfind : routes.find? (·.1 = []) with
    | none => exact absurd (List.find?_eq_none.mp hfind _ h) (by simp)
    | some q =>
      have hq : (routes.find? (·.1 = [])).map (·.2) = some q.2 := by rw [hfind]; rfl
      exact ⟨q.2, hq, mem_of_find? hq⟩
  | cons t ts ih =>
    have hfollow : (ts.map .literal, r) ∈ follow (· = .literal t) routes :=
      mem_follow.mpr ⟨.literal t, by simp, h⟩
    obtain ⟨r', hfind, hmem⟩ := ih hfollow
    obtain ⟨segment, hkeep, hroute⟩ := mem_follow.mp hmem
    obtain rfl : segment = .literal t := by simpa using hkeep
    exact ⟨r', by rw [find, hfind]; rfl, hroute⟩

/-- Whether a pattern can accept a path with given segments in front, where some may be
any text. -/
def compatible : List Segment → List (Option Str) → Bool
  | _, [] => true
  | .literal t :: p, s :: ss => s.all (· = t) && compatible p ss
  | .param :: p, _ :: ss => compatible p ss
  | .rest :: _, _ :: _ => true
  | [], _ :: _ => false

theorem compatible_of_accepts {p : List Segment} {known : List (Option Str)} {ss rest : List Str}
    (hknown : List.Forall₂ (fun k s => ∀ t ∈ k, s = t) known ss) (h : accepts p (ss ++ rest)) :
    compatible p known := by
  induction hknown generalizing p with
  | nil => simp [compatible]
  | @cons k s known ss hk _ ih =>
    cases p with
    | nil => simp [accepts] at h
    | cons segment p =>
      cases segment with
      | literal t =>
        simp only [List.cons_append, accepts, Bool.and_eq_true, decide_eq_true_eq] at h
        obtain ⟨rfl, hrest⟩ := h
        simp only [compatible, Bool.and_eq_true, Option.all_eq_true]
        exact ⟨fun t ht => by simpa using (hk t ht).symm, ih hrest⟩
      | param =>
        simp only [List.cons_append, accepts, Bool.and_eq_true] at h
        exact ih h.2
      | rest => rfl

theorem accepts_literals (ts : List Str) {p : List Segment} {ss : List Str}
    (h : accepts (ts.map .literal ++ p) ss) : ∃ rest, ss = ts ++ rest ∧ accepts p rest := by
  induction ts generalizing ss with
  | nil => exact ⟨ss, rfl, h⟩
  | cons t ts ih =>
    cases ss with
    | nil => simp [accepts] at h
    | cons s ss =>
      simp only [List.map_cons, List.cons_append, accepts, Bool.and_eq_true,
        decide_eq_true_eq] at h
      obtain ⟨rfl, hrest⟩ := h
      obtain ⟨rest, rfl, hp⟩ := ih hrest
      exact ⟨rest, rfl, hp⟩

theorem accepts_literals_iff {ts ss : List Str} : accepts (ts.map .literal) ss ↔ ss = ts := by
  constructor
  · intro h
    rw [← List.append_nil (ts.map _)] at h
    obtain ⟨rest, rfl, hrest⟩ := accepts_literals ts h
    cases rest with
    | nil => exact List.append_nil ts
    | cons s rest => cases hrest
  · rintro rfl
    induction ss with
    | nil => rfl
    | cons s ss ih => simpa [accepts] using ih

/-- A path under some literal segments starts with them. -/
theorem prefix_of_accepts (ts : List Str) {p : List Segment} {path : Str} (hp : p ≠ [])
    (h : accepts (ts.map .literal ++ p) (segments path)) : ts.flatMap (· ++ ['/']) <+: path := by
  obtain ⟨rest, hsegs, hrest⟩ := accepts_literals ts h
  have hne : rest ≠ [] := by
    rintro rfl
    cases p with
    | nil => exact hp rfl
    | cons segment p => simp [accepts] at hrest
  rw [← unsegments_segments path, hsegs, unsegments_append ts hne]
  exact List.prefix_append _ _

end Patterns

end Clawreform.Lib.PathRouter
