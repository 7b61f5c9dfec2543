import Mathlib.Data.List.Basic

namespace Clawreform.Lib.Program

variable {ε σ τ α β ι : Type}

def read (f : σ → α) : EStateM ε σ α := fun s => .ok (f s) s

def update (f : σ → σ) : EStateM ε σ Unit := fun s => .ok () (f s)

section Triple

variable {pre pre' : σ → Prop} {post post' : α → σ → Prop} {exit exit' : ε → σ → Prop}

/-- A program that starts in `pre` ends in `post`, or leaves early in `exit`. -/
structure Triple (pre : σ → Prop) (x : EStateM ε σ α) (post : α → σ → Prop)
    (exit : ε → σ → Prop) : Prop where
  run : ∀ s, pre s → match x s with
    | .ok a s' => post a s'
    | .error e s' => exit e s'

theorem Triple.of_ok {x : EStateM ε σ α} (h : Triple pre x post exit) {s s' : σ} {a : α}
    (hs : pre s) (hx : x s = .ok a s') : post a s' := by
  have hrun := h.run s hs
  rwa [hx] at hrun

theorem Triple.of_error {x : EStateM ε σ α} (h : Triple pre x post exit) {s s' : σ} {e : ε}
    (hs : pre s) (hx : x s = .error e s') : exit e s' := by
  have hrun := h.run s hs
  rwa [hx] at hrun

theorem triple_pure {a : α} (h : ∀ s, pre s → post a s) :
    Triple pre (pure a : EStateM ε σ α) post exit := ⟨h⟩

theorem triple_throw {e : ε} (h : ∀ s, pre s → exit e s) :
    Triple pre (throw e : EStateM ε σ α) post exit := ⟨h⟩

theorem triple_read {f : σ → α} (h : ∀ s, pre s → post (f s) s) :
    Triple pre (read f : EStateM ε σ α) post exit := ⟨h⟩

theorem triple_update {f : σ → σ} {post : Unit → σ → Prop} (h : ∀ s, pre s → post () (f s)) :
    Triple pre (update f : EStateM ε σ Unit) post exit := ⟨h⟩

theorem triple_bind {x : EStateM ε σ α} {f : α → EStateM ε σ β} {M : α → σ → Prop}
    {post : β → σ → Prop} (hx : Triple pre x M exit) (hf : ∀ a, Triple (M a) (f a) post exit) :
    Triple pre (x >>= f) post exit := by
  refine ⟨fun s hs => ?_⟩
  have hxs := hx.run s hs
  show match EStateM.bind x f s with
    | .ok b s' => post b s'
    | .error e s' => exit e s'
  unfold EStateM.bind
  cases h : x s with
  | ok a s' =>
    rw [h] at hxs
    exact (hf a).run s' hxs
  | error e s' =>
    rw [h] at hxs
    exact hxs

theorem Triple.weaken {x : EStateM ε σ α} (h : Triple pre x post exit)
    (hpre : ∀ s, pre' s → pre s) (hpost : ∀ a s, post a s → post' a s)
    (hexit : ∀ e s, exit e s → exit' e s) : Triple pre' x post' exit' := by
  refine ⟨fun s hs => ?_⟩
  have hxs := h.run s (hpre s hs)
  cases hx : x s with
  | ok a s' =>
    rw [hx] at hxs
    exact hpost a s' hxs
  | error e s' =>
    rw [hx] at hxs
    exact hexit e s' hxs

theorem triple_and {x : EStateM ε σ α} (h : Triple pre x post exit)
    (h' : Triple pre' x post' exit') :
    Triple (fun s => pre s ∧ pre' s) x (fun a s => post a s ∧ post' a s)
      (fun e s => exit e s ∧ exit' e s) := by
  refine ⟨fun s hs => ?_⟩
  have hrun := h.run s hs.1
  have hrun' := h'.run s hs.2
  cases hx : x s with
  | ok a s' =>
    rw [hx] at hrun hrun'
    exact ⟨hrun, hrun'⟩
  | error e s' =>
    rw [hx] at hrun hrun'
    exact ⟨hrun, hrun'⟩

/-- What is the same in every state is what the program reads. -/
theorem triple_read_bind {f : σ → α} {a : α} {g : α → EStateM ε σ β} {post : β → σ → Prop}
    (h : ∀ s, pre s → f s = a) (hg : Triple pre (g a) post exit) :
    Triple pre (read f >>= g) post exit := by
  refine ⟨fun s hs => ?_⟩
  have heq : (read f >>= g) s = g a s := by rw [← h s hs]; rfl
  rw [heq]
  exact hg.run s hs

/-- What every round of a loop keeps, with the rounds done so far in view, holds
when the loop is over. -/
theorem triple_forM {is : List ι} {body : ι → EStateM ε σ PUnit} {I : List ι → σ → Prop}
    (hbody : ∀ done i, done ++ [i] <+: is →
      Triple (I done) (body i) (fun _ => I (done ++ [i])) exit) :
    Triple (I []) (is.forM body) (fun _ => I is) exit := by
  have hrest : ∀ done rest, done ++ rest = is →
      Triple (I done) (rest.forM body) (fun _ => I is) exit := by
    intro done rest
    induction rest generalizing done with
    | nil =>
      intro h
      rw [List.append_nil] at h
      exact triple_pure fun s hs => h ▸ hs
    | cons i rest ih =>
      intro h
      rw [List.append_cons] at h
      exact triple_bind (hbody done i ⟨rest, h⟩) fun _ => ih (done ++ [i]) h
  exact hrest [] is rfl

/-- A loop whose rounds are numbered. -/
theorem triple_forM_zipIdx {is : List ι} {k : Nat} {body : ι × Nat → EStateM ε σ PUnit}
    {I : List ι → σ → Prop} (hbody : ∀ done i n, done ++ [i] <+: is →
      Triple (I done) (body (i, n)) (fun _ => I (done ++ [i])) exit) :
    Triple (I []) ((is.zipIdx k).forM body) (fun _ => I is) exit := by
  have hloop : Triple (I []) ((is.zipIdx k).forM body)
      (fun _ => I ((is.zipIdx k).map Prod.fst)) exit := by
    apply triple_forM (I := fun done => I (done.map Prod.fst))
    intro done p hp
    rw [List.map_append]
    apply hbody
    have hmap := hp.map Prod.fst
    rwa [List.map_append, List.zipIdx_map_fst] at hmap
  rwa [List.zipIdx_map_fst] at hloop

theorem triple_adaptExcept {ε' : Type} {f : ε → ε'} {x : EStateM ε σ α} {exit : ε' → σ → Prop}
    (h : Triple pre x post fun e => exit (f e)) : Triple pre (x.adaptExcept f) post exit := by
  refine ⟨fun s hs => ?_⟩
  have hrun := h.run s hs
  rw [EStateM.adaptExcept]
  cases hx : x s with
  | ok a s' =>
    rw [hx] at hrun
    exact hrun
  | error e s' =>
    rw [hx] at hrun
    exact hrun

/-- What a program reads stays in view. -/
theorem triple_read_known {f : σ → α} :
    Triple pre (read f : EStateM ε σ α) (fun a s => pre s ∧ f s = a) exit :=
  ⟨fun _ hs => ⟨hs, rfl⟩⟩

/-- A value that is known beforehand. -/
theorem triple_bind_known {x : EStateM ε σ α} {f : α → EStateM ε σ β} {M : σ → Prop} {a : α}
    {post : β → σ → Prop} (hx : Triple pre x (fun b s => M s ∧ b = a) exit)
    (hf : Triple M (f a) post exit) : Triple pre (x >>= f) post exit := by
  apply triple_bind hx
  intro b
  refine ⟨fun s hs => ?_⟩
  obtain ⟨hM, rfl⟩ := hs
  exact hf.run s hM

/-- A triple about each state of `pre` on its own. -/
theorem triple_of_state {x : EStateM ε σ α}
    (h : ∀ s₀, pre s₀ → Triple (fun s => s = s₀) x post exit) : Triple pre x post exit :=
  ⟨fun s hs => (h s hs).run s rfl⟩

theorem triple_of_fact {x : EStateM ε σ α} {fact : Prop}
    (h : fact → Triple pre x post exit) : Triple (fun s => pre s ∧ fact) x post exit :=
  ⟨fun s hs => (h hs.2).run s hs.1⟩

/-- A program over each element, and what is known of the values it yields. -/
theorem triple_mapM {is : List ι} {f : ι → EStateM ε σ α} {Q : α → Prop}
    (h : ∀ i ∈ is, Triple pre (f i) (fun a s => pre s ∧ Q a) exit) :
    Triple pre (is.mapM f) (fun as s => pre s ∧ ∀ a ∈ as, Q a) exit := by
  induction is with
  | nil => exact triple_pure fun s hs => ⟨hs, by simp⟩
  | cons i is ih =>
    rw [List.mapM_cons]
    apply triple_bind (h i List.mem_cons_self)
    intro a
    apply triple_of_fact
    intro ha
    apply triple_bind (ih fun j hj => h j (List.mem_cons_of_mem _ hj))
    intro as
    apply triple_of_fact
    intro has
    exact triple_pure fun s hs => ⟨hs, by simpa using ⟨ha, has⟩⟩

/-- What a body keeps with every value and every element, a fold keeps. -/
theorem triple_foldlM {is : List ι} {body : α → ι → EStateM ε σ α}
    (h : ∀ a, ∀ i ∈ is, Triple pre (body a i) (fun _ => pre) exit) (a : α) :
    Triple pre (is.foldlM body a) (fun _ => pre) exit := by
  induction is generalizing a with
  | nil => exact triple_pure fun _ hs => hs
  | cons i is ih =>
    rw [List.foldlM_cons]
    exact triple_bind (h a i List.mem_cons_self)
      fun b => ih (fun b j hj => h b j (List.mem_cons_of_mem _ hj)) b

end Triple

section Running

variable {x : EStateM ε σ α} {f : α → EStateM ε σ β} {s s' : σ}

theorem bind_of_ok {a : α} (h : x s = .ok a s') : (x >>= f) s = f a s' := by
  show EStateM.bind x f s = f a s'
  rw [EStateM.bind, h]

theorem bind_of_error {e : ε} (h : x s = .error e s') : (x >>= f) s = .error e s' := by
  show EStateM.bind x f s = .error e s'
  rw [EStateM.bind, h]

theorem read_bind (g : σ → α) (s : σ) : (read g >>= f) s = f (g s) s := rfl

theorem forM_cons (i : ι) (is : List ι) (f : ι → EStateM ε σ PUnit) :
    (i :: is).forM f = (f i >>= fun _ => is.forM f) := rfl

end Running

section Preserves

variable {inv : σ → Prop}

/-- The program keeps an invariant, however it ends. -/
def Preserves (inv : σ → Prop) (x : EStateM ε σ α) : Prop :=
  Triple inv x (fun _ => inv) (fun _ => inv)

theorem preserves_pure (a : α) : Preserves inv (pure a : EStateM ε σ α) :=
  triple_pure fun _ hs => hs

theorem preserves_throw (e : ε) : Preserves inv (throw e : EStateM ε σ α) :=
  triple_throw fun _ hs => hs

theorem preserves_read (f : σ → α) : Preserves inv (read f : EStateM ε σ α) :=
  triple_read fun _ hs => hs

theorem preserves_update {f : σ → σ} (h : ∀ s, inv s → inv (f s)) :
    Preserves inv (update f : EStateM ε σ Unit) :=
  triple_update h

theorem preserves_bind {x : EStateM ε σ α} {f : α → EStateM ε σ β} (hx : Preserves inv x)
    (hf : ∀ a, Preserves inv (f a)) : Preserves inv (x >>= f) :=
  triple_bind hx hf

end Preserves

section Agree

variable {rel : σ → τ → Prop}

/-- Two programs that start in related states end in related states with the
same value, or leave early with the same value in related states. -/
def Agree (rel : σ → τ → Prop) (x : EStateM ε σ α) (y : EStateM ε τ α) : Prop :=
  ∀ s t, rel s t →
    (∃ a s' t', x s = .ok a s' ∧ y t = .ok a t' ∧ rel s' t') ∨
      (∃ e s' t', x s = .error e s' ∧ y t = .error e t' ∧ rel s' t')

theorem agree_pure (a : α) :
    Agree rel (pure a : EStateM ε σ α) (pure a : EStateM ε τ α) :=
  fun s t h => Or.inl ⟨a, s, t, rfl, rfl, h⟩

theorem agree_throw (e : ε) :
    Agree rel (throw e : EStateM ε σ α) (throw e : EStateM ε τ α) :=
  fun s t h => Or.inr ⟨e, s, t, rfl, rfl, h⟩

theorem agree_read {f : σ → α} {g : τ → α} (h : ∀ s t, rel s t → f s = g t) :
    Agree rel (read f : EStateM ε σ α) (read g : EStateM ε τ α) :=
  fun s t hst => Or.inl ⟨f s, s, t, rfl, by rw [h s t hst]; rfl, hst⟩

theorem agree_update {f : σ → σ} {g : τ → τ} (h : ∀ s t, rel s t → rel (f s) (g t)) :
    Agree rel (update f : EStateM ε σ Unit) (update g : EStateM ε τ Unit) :=
  fun s t hst => Or.inl ⟨(), f s, g t, rfl, rfl, h s t hst⟩

theorem agree_bind {x : EStateM ε σ α} {y : EStateM ε τ α} {f : α → EStateM ε σ β}
    {g : α → EStateM ε τ β} (hxy : Agree rel x y) (hfg : ∀ a, Agree rel (f a) (g a)) :
    Agree rel (x >>= f) (y >>= g) := by
  intro s t hst
  rcases hxy s t hst with ⟨a, s', t', hx, hy, h⟩ | ⟨e, s', t', hx, hy, h⟩
  · rw [bind_of_ok hx, bind_of_ok hy]
    exact hfg a s' t' h
  · exact Or.inr ⟨e, s', t', bind_of_error hx, bind_of_error hy, h⟩

/-- A step of the right program alone that stays within the relation. -/
theorem agree_skip {x : EStateM ε σ β} {f : τ → τ} {y : Unit → EStateM ε τ β}
    (h : ∀ s t, rel s t → rel s (f t)) (hxy : Agree rel x (y ())) :
    Agree rel x (update f >>= y) :=
  fun s t hst => hxy s (f t) (h s t hst)

theorem agree_forM {is : List ι} {f : ι → EStateM ε σ PUnit} {g : ι → EStateM ε τ PUnit}
    (h : ∀ i, Agree rel (f i) (g i)) : Agree rel (is.forM f) (is.forM g) := by
  induction is with
  | nil => exact agree_pure _
  | cons i is ih => exact agree_bind (h i) (fun _ => ih)

end Agree

end Clawreform.Lib.Program
