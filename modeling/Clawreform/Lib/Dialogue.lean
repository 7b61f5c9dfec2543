import Clawreform.Lib.Trace

namespace Clawreform.Lib

open Clawreform.Lib.Trace

universe u v w

/-- A program that asks questions and goes on with the answers. -/
inductive Dialogue (Q : Type u) (A : Q → Type v) (α : Type w) where
  | done (a : α)
  | ask (q : Q) (k : A q → Dialogue Q A α)

variable {Q : Type u} {A : Q → Type v} {α β : Type w} {σ κ : Type*}

namespace Dialogue

def bind : Dialogue Q A α → (α → Dialogue Q A β) → Dialogue Q A β
  | .done a, f => f a
  | .ask q k, f => .ask q fun a => (k a).bind f

instance : Monad (Dialogue Q A) where
  pure := .done
  bind := bind

def query {A : Q → Type w} (q : Q) : Dialogue Q A (A q) := .ask q .done

@[simp] theorem pure_eq (a : α) : (pure a : Dialogue Q A α) = .done a := rfl

@[simp] theorem done_bind (a : α) (f : α → Dialogue Q A β) : (.done a >>= f) = f a := rfl

@[simp] theorem ask_bind (q : Q) (k : A q → Dialogue Q A α) (f : α → Dialogue Q A β) :
    (.ask q k >>= f) = .ask q fun a => k a >>= f := rfl

@[simp] theorem query_bind {A : Q → Type w} (q : Q) (f : A q → Dialogue Q A β) :
    (query q >>= f) = .ask q f := rfl

section Running

variable (env : (q : Q) → σ → A q × σ)

/-- The questions are answered by an environment with a state of its own. -/
def run (s : σ) : Dialogue Q A α → (α × σ) × List (Σ q, A q)
  | .done a => ((a, s), [])
  | .ask q k =>
    let answer := env q s
    let rest := (k answer.1).run answer.2
    (rest.1, ⟨q, answer.1⟩ :: rest.2)

/-- The questions asked, with their answers. -/
def events (s : σ) (d : Dialogue Q A α) : List (Σ q, A q) := (d.run env s).2

@[simp] theorem events_done (s : σ) (a : α) : (Dialogue.done (Q := Q) (A := A) a).events env s = [] := rfl

@[simp] theorem events_ask (s : σ) (q : Q) (k : A q → Dialogue Q A α) :
    (Dialogue.ask q k).events env s =
      ⟨q, (env q s).1⟩ :: (k (env q s).1).events env (env q s).2 := rfl

theorem events_bind (s : σ) (d : Dialogue Q A α) (f : α → Dialogue Q A β) :
    (d >>= f).events env s =
      d.events env s ++ (f (d.run env s).1.1).events env (d.run env s).1.2 := by
  induction d generalizing s with
  | done a => rfl
  | ask q k ih =>
    rw [ask_bind, events_ask, events_ask, List.cons_append]
    exact congrArg _ (ih _ _)

end Running

section Permissions

variable (grants : (Σ q, A q) → κ → Prop) (needs : Q → κ → Prop)

/-- On no path is a question asked before all it needs has been granted. -/
def Guarded (given : κ → Prop) : Dialogue Q A α → Prop
  | .done _ => True
  | .ask q k => (∀ x, needs q x → given x) ∧
      ∀ a, (k a).Guarded fun x => given x ∨ grants ⟨q, a⟩ x

def Asks (p : Q → Prop) : Dialogue Q A α → Prop
  | .done _ => True
  | .ask q k => p q ∧ ∀ a, (k a).Asks p

/-- What an event needs was granted in front of it. -/
def Covered (past : List (Σ q, A q)) (e : Σ q, A q) : Prop :=
  ∀ x, needs e.1 x → ∃ g ∈ past, grants g x

variable {grants needs}

theorem Guarded.mono {given more : κ → Prop} (hle : ∀ x, given x → more x)
    {d : Dialogue Q A α} (h : d.Guarded grants needs given) : d.Guarded grants needs more := by
  induction d generalizing given more with
  | done a => trivial
  | ask q k ih =>
    exact ⟨fun x hx => hle x (h.1 x hx), fun a => ih a (fun x hx => hx.imp_left (hle x)) (h.2 a)⟩

theorem Guarded.bind {given : κ → Prop} {d : Dialogue Q A α} {f : α → Dialogue Q A β}
    (h : d.Guarded grants needs given) (hf : ∀ a, (f a).Guarded grants needs given) :
    (d >>= f).Guarded grants needs given := by
  induction d generalizing given with
  | done a => exact hf a
  | ask q k ih => exact ⟨h.1, fun a => ih a (h.2 a) fun b => (hf b).mono fun _ => .inl⟩

/-- A guarded dialogue covers what it needs, whatever the answers. -/
theorem Guarded.always {given : κ → Prop} {d : Dialogue Q A α}
    (h : d.Guarded grants needs given) (env : (q : Q) → σ → A q × σ) (s : σ)
    (past : List (Σ q, A q)) (hgiven : ∀ x, given x → ∃ g ∈ past, grants g x) :
    Always (fun before e => Covered grants needs (past ++ before) e) (d.events env s) := by
  induction d generalizing given s past with
  | done a => exact always_nil
  | ask q k ih =>
    rw [events_ask, always_cons]
    constructor
    · intro x hx
      simpa using hgiven x (h.1 x hx)
    · have htail := ih (env q s).1 (h.2 (env q s).1) (env q s).2 (past ++ [⟨q, (env q s).1⟩]) (by
        rintro x (hx | hx)
        · obtain ⟨g, hg, hgx⟩ := hgiven x hx
          exact ⟨g, List.mem_append_left _ hg, hgx⟩
        · exact ⟨_, List.mem_append_right _ (List.mem_singleton.mpr rfl), hx⟩)
      simpa [List.append_assoc] using htail

theorem Asks.imp {p p' : Q → Prop} {d : Dialogue Q A α} (h : d.Asks p) (hp : ∀ q, p q → p' q) :
    d.Asks p' := by
  induction d with
  | done a => trivial
  | ask q k ih => exact ⟨hp q h.1, fun a => ih a (h.2 a)⟩

theorem Asks.events {p : Q → Prop} {d : Dialogue Q A α} (h : d.Asks p)
    (env : (q : Q) → σ → A q × σ) (s : σ) : ∀ e ∈ d.events env s, p e.1 := by
  induction d generalizing s with
  | done a => simp
  | ask q k ih =>
    rw [events_ask, List.forall_mem_cons]
    exact ⟨h.1, ih _ (h.2 _) _⟩

theorem Asks.bind {p : Q → Prop} {d : Dialogue Q A α} {f : α → Dialogue Q A β}
    (h : d.Asks p) (hf : ∀ a, (f a).Asks p) : (d >>= f).Asks p := by
  induction d with
  | done a => exact hf a
  | ask q k ih => exact ⟨h.1, fun a => ih a (h.2 a)⟩

/-- Where nothing is granted, nothing that needs a permission may be asked. -/
theorem always_covered_iff {es : List (Σ q, A q)} (h : ∀ e ∈ es, ∀ x, ¬ grants e x) :
    Always (Covered grants needs) es ↔ ∀ e ∈ es, ∀ x, ¬ needs e.1 x := by
  constructor
  · intro hall e he x hx
    obtain ⟨past, rest, rfl⟩ := List.append_of_mem he
    obtain ⟨g, hg, hgx⟩ := hall past e rest rfl x hx
    exact h g (List.mem_append_left _ hg) x hgx
  · rintro hnone past e rest rfl x hx
    exact absurd hx (hnone e (by simp) x)

end Permissions

section Possibilities

/-- With some answers a question of a kind is asked. -/
def MayAsk (p : Q → Prop) : Dialogue Q A α → Prop
  | .done _ => False
  | .ask q k => p q ∨ ∃ a, (k a).MayAsk p

variable {p : Q → Prop}

theorem not_mayAsk_done (a : α) : ¬ (Dialogue.done (Q := Q) (A := A) a).MayAsk p := id

theorem mayAsk_ask_of_not {q : Q} {k : A q → Dialogue Q A α} (hq : ¬ p q) :
    (Dialogue.ask q k).MayAsk p ↔ ∃ a, (k a).MayAsk p := or_iff_right hq

theorem Asks.not_mayAsk {p' : Q → Prop} {d : Dialogue Q A α} (h : d.Asks p')
    (hp : ∀ q, p' q → ¬ p q) : ¬ d.MayAsk p := by
  induction d with
  | done a => exact not_mayAsk_done a
  | ask q k ih =>
    rintro (hq | ⟨a, ha⟩)
    · exact hp q h.1 hq
    · exact ih a (h.2 a) ha

/-- What comes after adds nothing when it asks no such question. -/
theorem mayAsk_bind_of_not {d : Dialogue Q A α} {f : α → Dialogue Q A β}
    (hf : ∀ a, ¬ (f a).MayAsk p) : (d >>= f).MayAsk p ↔ d.MayAsk p := by
  induction d with
  | done a => exact iff_of_false (hf a) (not_mayAsk_done a)
  | ask q k ih => exact or_congr_right (exists_congr ih)

theorem mayAsk_bind_done {d : Dialogue Q A α} {f : α → β} :
    (d >>= fun a => .done (f a)).MayAsk p ↔ d.MayAsk p :=
  mayAsk_bind_of_not fun a => not_mayAsk_done (f a)

end Possibilities

end Dialogue

end Clawreform.Lib
