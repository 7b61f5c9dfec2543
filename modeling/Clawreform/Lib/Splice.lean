import Mathlib.Data.List.Basic

namespace Clawreform.Lib.Splice

variable {α γ : Type*}

/-- Edit the part of a list that follows its first `n` elements. -/
def applyAt (f : List α → List α) : Nat → List α → List α
  | 0, l => f l
  | _ + 1, [] => f []
  | n + 1, a :: l => a :: applyAt f n l

@[simp] theorem applyAt_append (f : List α → List α) (p l : List α) :
    applyAt f p.length (p ++ l) = p ++ f l := by
  induction p with
  | nil => rfl
  | cons a p ih => rw [List.cons_append, List.length_cons, applyAt, ih, List.cons_append]

theorem modify_last {l : List α} {x : α} {k : Nat} (h : l.length = k) (f : α → α) :
    (l ++ [x]).modify k f = l ++ [f x] := by
  subst h
  induction l with
  | nil => rfl
  | cons y l ih => rw [List.cons_append, List.length_cons, List.modify_succ_cons, ih]; rfl

/-- Each element brings an edit of what follows it, or none. -/
def onePass (edit : γ → List α → List α) : List (α × Option γ) → List α
  | [] => []
  | (a, none) :: l => a :: onePass edit l
  | (a, some x) :: l => a :: edit x (onePass edit l)

/-- Edits done one by one from the back of a list, each at its own position,
come to one pass. -/
theorem foldl_applyAt (edit : γ → List α → List α) (pos : γ → Nat) (p : List α)
    (d : List (α × Option γ))
    (hpos : ∀ pre a x post, d = pre ++ (a, some x) :: post → pos x = p.length + pre.length + 1) :
    (d.filterMap Prod.snd).reverse.foldl (fun l x => applyAt (edit x) (pos x) l)
      (p ++ d.map Prod.fst) = p ++ onePass edit d := by
  induction d generalizing p with
  | nil => simp [onePass]
  | cons e d ih =>
    obtain ⟨a, o⟩ := e
    have hrec := ih (p ++ [a]) (by
      intro pre b x post hd
      rw [hpos ((a, o) :: pre) b x post (by rw [hd, List.cons_append])]
      simp only [List.length_cons, List.length_append, List.length_nil]
      omega)
    rw [List.append_assoc, List.singleton_append] at hrec
    cases o with
    | none =>
      simp only [List.map_cons, List.filterMap_cons]
      rw [hrec, onePass, List.append_assoc, List.singleton_append]
    | some x =>
      have hx : pos x = (p ++ [a]).length := by
        rw [hpos [] a x d rfl]
        simp
      simp only [List.map_cons, List.filterMap_cons, List.reverse_cons, List.foldl_append]
      rw [hrec, List.foldl_cons, List.foldl_nil, hx, applyAt_append, onePass, List.append_assoc,
        List.singleton_append]

end Clawreform.Lib.Splice
