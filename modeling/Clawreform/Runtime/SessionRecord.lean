import Clawreform.Runtime.SessionRepair

namespace Clawreform.Runtime

open Clawreform.Lib.Text
open Clawreform.Types
open Clawreform.Runtime.SessionRepair

section Record

variable (ids : List Str)

/-- Every assistant message that calls tools is followed by a user message with
the results of those of its calls that are in `ids`. -/
def Recorded (session : List Message) : Prop :=
  ∀ pre m post, session = pre ++ m :: post → m.calls ≠ [] → ∃ next rest, post = next :: rest ∧
    next.role = .user ∧ ∀ id ∈ m.calls, id ∈ ids → id ∈ next.toolResults

/-- What stands behind the results does not make a heartbeat turn of them. -/
def Settled (session : List Message) : Prop :=
  ∀ pre m post, session = pre ++ m :: post → m.calls ≠ [] → ∃ next rest, post = next :: rest ∧
    next.role = .user ∧ (∀ id ∈ m.calls, id ∈ ids → id ∈ next.toolResults) ∧
    ∀ z ∈ rest.head?, z.role = .assistant → isNoReply z.content = false

/-- The last message answers tool calls. -/
def Awaiting (session : List Message) : Prop :=
  ∃ pre m next, session = pre ++ [m, next] ∧ m.calls ≠ []

variable {ids} {session more : List Message}

theorem Settled.recorded (h : Settled ids session) : Recorded ids session := by
  intro pre m post he hm
  obtain ⟨next, rest, hpost, hrole, hids, -⟩ := h pre m post he hm
  exact ⟨next, rest, hpost, hrole, hids⟩

theorem Recorded.mono {ids' : List Str} (h : Recorded ids session) (hids : ids' ⊆ ids) :
    Recorded ids' session := by
  intro pre m post he hm
  obtain ⟨next, rest, hpost, hrole, hresults⟩ := h pre m post he hm
  exact ⟨next, rest, hpost, hrole, fun id hid h => hresults id hid (hids h)⟩

theorem calls_of_user {m : Message} (h : m.role = .user) : m.calls = [] := by
  rw [Message.calls, if_neg (by rw [h]; decide)]

theorem settled_singleton {m : Message} (h : m.calls = []) : Settled ids [m] := by
  intro pre x post he hx
  cases pre with
  | nil =>
    obtain ⟨rfl, -⟩ := List.cons.inj he
    exact absurd h hx
  | cons y pre =>
    have := (List.cons.inj he).2
    simp at this

/-- An assistant message with the user message that answers its calls. -/
theorem settled_pair {m next : Message} (hnext : next.role = .user)
    (hids : ∀ id ∈ m.calls, id ∈ next.toolResults) : Settled ids [m, next] := by
  intro pre x post he hx
  cases pre with
  | nil =>
    obtain ⟨rfl, rfl⟩ := List.cons.inj he
    exact ⟨next, [], rfl, hnext, fun id hid _ => hids id hid, fun _ hz => nomatch hz⟩
  | cons y pre =>
    have htail : Settled ids [next] := settled_singleton (calls_of_user hnext)
    exact htail pre x post (List.cons.inj he).2 hx

theorem Recorded.append (h : Recorded ids session) (hmore : Recorded ids more) :
    Recorded ids (session ++ more) := by
  intro pre m post he hm
  rcases List.append_eq_append_iff.mp he with ⟨mid, rfl, hmid⟩ | ⟨mid, rfl, hmid⟩
  · exact hmore mid m post hmid hm
  · cases mid with
    | nil => exact hmore [] m post (by simpa using hmid.symm) hm
    | cons x mid =>
      obtain ⟨rfl, rfl⟩ := List.cons.inj hmid
      obtain ⟨next, rest, rfl, hrole, hids⟩ := h pre m mid rfl hm
      exact ⟨next, rest ++ more, rfl, hrole, hids⟩

theorem Settled.append (h : Settled ids session) (hmore : Settled ids more)
    (hhead : Awaiting session → ∀ z ∈ more.head?, z.role = .assistant →
      isNoReply z.content = false) : Settled ids (session ++ more) := by
  intro pre m post he hm
  rcases List.append_eq_append_iff.mp he with ⟨mid, rfl, hmid⟩ | ⟨mid, rfl, hmid⟩
  · exact hmore mid m post hmid hm
  · cases mid with
    | nil => exact hmore [] m post (by simpa using hmid.symm) hm
    | cons x mid =>
      obtain ⟨rfl, rfl⟩ := List.cons.inj hmid
      obtain ⟨next, rest, rfl, hrole, hids, hrest⟩ := h pre m mid rfl hm
      refine ⟨next, rest ++ more, rfl, hrole, hids, ?_⟩
      cases rest with
      | nil => exact hhead ⟨pre, m, next, rfl, hm⟩
      | cons z rest => exact hrest

end Record

section Prune

variable {α : Type}

def removeFrom (k : Nat) (indices : List Nat) (l : List α) : List α :=
  ((l.zipIdx k).filter (fun p => !indices.contains p.2)).map Prod.fst

theorem removeFrom_cons (k : Nat) (indices : List Nat) (x : α) (l : List α) :
    removeFrom k indices (x :: l) =
      if k ∈ indices then removeFrom (k + 1) indices l
      else x :: removeFrom (k + 1) indices l := by
  unfold removeFrom
  rw [List.zipIdx_cons, List.filter_cons]
  by_cases h : k ∈ indices <;> simp [h]

/-- What is kept of a list stands in it at an index that is not removed. -/
theorem removeFrom_split {k : Nat} {indices : List Nat} {l before after : List α} {x : α}
    (h : removeFrom k indices l = before ++ x :: after) :
    ∃ pre post, l = pre ++ x :: post ∧ after = removeFrom (k + pre.length + 1) indices post := by
  induction l generalizing k before with
  | nil => exact absurd h (by simp [removeFrom])
  | cons y l ih =>
    have hlater : ∀ {before}, removeFrom (k + 1) indices l = before ++ x :: after →
        ∃ pre post, y :: l = pre ++ x :: post ∧
          after = removeFrom (k + pre.length + 1) indices post := by
      intro before h
      obtain ⟨pre, post, rfl, hafter⟩ := ih h
      refine ⟨y :: pre, post, rfl, ?_⟩
      rw [hafter, List.length_cons]
      congr 1
      omega
    rw [removeFrom_cons] at h
    split at h
    · exact hlater h
    · cases before with
      | nil =>
        obtain ⟨rfl, rfl⟩ := List.cons.inj h
        exact ⟨[], l, rfl, rfl⟩
      | cons z before => exact hlater (List.cons.inj h).2

theorem mem_prunedIndices {messages : List Message} {pruneEnd i : Nat}
    (h : i ∈ prunedIndices messages pruneEnd) :
    ∃ j < pruneEnd, ∃ m, messages[j]? = some m ∧ m.role = .assistant ∧ isNoReply m.content = true ∧
      (i = j ∨ i + 1 = j) := by
  obtain ⟨j, hj, hi⟩ := List.mem_flatMap.mp h
  refine ⟨j, List.mem_range.mp hj, ?_⟩
  split at hi
  · rename_i m hm
    split at hi <;> rename_i hcond
    · refine ⟨m, hm, hcond.1, hcond.2, ?_⟩
      rcases List.mem_cons.mp hi with rfl | hi
      · exact Or.inl rfl
      · split at hi <;> rename_i hpos
        · rw [List.mem_singleton.mp hi]
          omega
        · cases hi
    · cases hi
  · cases hi

/-- Pruning keeps the record of a session whose last message is new. -/
theorem prune_recorded {ids : List Str} {session : List Message} {last : Message}
    (h : Settled ids session) (hlast : last.calls = []) :
    Recorded ids (pruneHeartbeatTurns (session ++ [last]) 10) := by
  have hwhole : Recorded ids (session ++ [last]) :=
    h.recorded.append (settled_singleton hlast).recorded
  unfold pruneHeartbeatTurns
  split
  · exact hwhole
  intro before m after he hm
  obtain ⟨pre, post, hsplit, rfl⟩ := removeFrom_split (k := 0) he
  obtain ⟨next, rest, rfl, hrole, hids⟩ := hwhole pre m post hsplit hm
  rw [removeFrom_cons, if_neg]
  · exact ⟨next, _, rfl, hrole, hids⟩
  -- a no-reply at the index of the answer, or right behind it
  intro hpruned
  obtain ⟨j, hj, z, hz, hzrole, hzreply, hplace⟩ := mem_prunedIndices hpruned
  rw [List.length_append, List.length_singleton] at hj
  rw [hsplit, List.getElem?_append_right (by omega)] at hz
  rcases hplace with hplace | hplace
  · rw [show j - pre.length = 1 by omega] at hz
    obtain rfl : next = z := Option.some.inj hz
    rw [hrole] at hzrole
    cases hzrole
  · rw [show j - pre.length = 2 by omega] at hz
    rcases rest.eq_nil_or_concat with rfl | ⟨rest, x, rfl⟩
    · cases hz
    have hsession : session = pre ++ m :: next :: rest := by
      have hconcat : session ++ [last] = (pre ++ m :: next :: rest) ++ [x] := by simpa using hsplit
      exact (List.append_inj' hconcat rfl).1
    obtain ⟨next', rest', hpost, -, -, hreply⟩ := h pre m _ hsession hm
    obtain ⟨rfl, rfl⟩ := List.cons.inj hpost
    cases rest with
    | nil =>
      rw [hsession, List.length_append] at hj
      simp only [List.length_cons, List.length_nil] at hj
      omega
    | cons y rest =>
      obtain rfl : y = z := Option.some.inj hz
      rw [hreply y rfl hzrole] at hzreply
      cases hzreply

end Prune

end Clawreform.Runtime
