import Clawreform.Kernel.Conversation

namespace Clawreform.Kernel.Conversation

open Clawreform.Lib Clawreform.Lib.Text Clawreform.Lib.Run Clawreform.Lib.Store
open Clawreform.Types Clawreform.Memory Clawreform.Runtime
open Clawreform.Runtime.SessionRepair Clawreform.Runtime.Exchanges Clawreform.Runtime.TurnSaves

section Stores

variable {agentId : AgentId} {store : SessionStore} {session : Session} {id : SessionId}
  {canonical : CanonicalSession} {text : Str}

theorem row_saveSession : row (store.saveSession session) id =
    if id = session.id then session.messages else row store id := by
  rw [row, SessionStore.getSession_saveSession]
  split
  · rfl
  · rfl

end Stores

section Exchanges

variable {u t : Str} {l l' : List Message}

theorem Grows.holds (h : Grows l l') (hl : Holds u t l) : Holds u t l' := by
  obtain ⟨_, ⟨more, rfl⟩, rfl | rfl⟩ := h
  · exact hl.append more
  · exact prune_holds (hl.append more) 10

theorem Grows.utters (h : Grows l l') (hl : Utters t l) : Utters t l' := by
  obtain ⟨_, ⟨more, rfl⟩, rfl | rfl⟩ := h
  · exact hl.append more
  · exact prune_utters (hl.append more) 10

/-- An exchange that is cut, and a summary that has the parts that are gone. -/
theorem compact_keeps {A B : Prop} (hretains : Retains (keptMessages l) l')
    (hblank : isBlankText t = false) (hnil : u = [] → A)
    (hu : (∃ m ∈ toCompact l, u ∈ texts m) → A) (ht : (∃ m ∈ toCompact l, t ∈ texts m) → B)
    (h : Holds u t l ∨ A ∧ (Utters t l ∨ B)) :
    Holds u t l' ∨ A ∧ (Utters t l' ∨ B) := by
  have hsplit : l = toCompact l ++ keptMessages l := (List.take_append_drop _ _).symm
  rw [hsplit] at h
  obtain hholds | ⟨ha, hutters | hb⟩ := h
  · obtain hkept | ⟨hcut, hanswer⟩ := hholds.cut
    · by_cases hempty : u = []
      · exact .inr ⟨hnil hempty, .inl (hretains.utters t hblank hkept.utters)⟩
      · exact .inl (hretains.holds u t hempty hblank hkept)
    · exact .inr ⟨hu hcut, hanswer.symm.imp (hretains.utters t hblank) ht⟩
  · exact .inr ⟨ha, hutters.cut.symm.imp (hretains.utters t hblank) ht⟩
  · exact .inr ⟨ha, .inr hb⟩

end Exchanges

section Invariant

variable {κ : Type} (agentId : AgentId) (store : SessionStore) (id : SessionId)

/-- The exchange is in the session, or its first part is in the summary. -/
def Safe (x : Answer κ) : Prop :=
  isBlankText x.stored = false ∧ (Holds x.send.messageWithLinks x.stored (row store id) ∨
    InSummary agentId store x.send.messageWithLinks ∧
      (Utters x.stored (row store id) ∨ InSummary agentId store x.stored))

/-- With the last of its sessions a turn saves its exchange. -/
def Promises (send : Send κ) (run : Exit × Loop κ) (last : List Message) : Prop :=
  ∀ result, run.1 = .returned result → (⟨send, some run, result⟩ : Answer κ).Lasting →
    Holds send.messageWithLinks (sanitizeVisibleResponse result.response) last ∧
      isBlankText (sanitizeVisibleResponse result.response) = false

/-- The sessions of a turn go on from what it saw. -/
def Turning : Call κ → Prop
  | .turn send _ seen saves run => (seen :: saves).IsChain Grows ∧
    Promises send run ((seen :: saves).getLast (List.cons_ne_nil _ _))
  | _ => True

structure Fits (c : Call κ) : Prop where
  session : ∀ i, c.sessionId? = some i → i = id
  turning : Turning c

structure Kept (s : Talk κ) : Prop where
  calls : ∀ c ∈ s.calls, Fits s.sessionId c
  due : ∀ x ∈ s.due, x.Lasting → Safe agentId s.store s.sessionId x

variable {agentId store id}

/-- What is safe is in the session or in the summary. -/
theorem Safe.contains {x : Answer κ} (h : Safe agentId store id x) :
    Contains agentId store id .user x.send.message ∧
      Contains agentId store id .assistant x.stored := by
  have hmessage : x.send.message <:+: x.send.messageWithLinks := (List.prefix_append _ _).isInfix
  have hutters (h : Utters x.stored (row store id)) :
      Contains agentId store id .assistant x.stored := by
    obtain ⟨m, hm, hrole, ht, -⟩ := h
    exact .inr ⟨m, hm, hrole, _, ht, List.infix_rfl⟩
  obtain ⟨-, h | ⟨hu, ht⟩⟩ := h
  · obtain ⟨m, hm, hrole, hu⟩ := h.says
    exact ⟨.inr ⟨m, hm, hrole, _, hu, hmessage⟩, hutters h.utters⟩
  · refine ⟨.inl ?_, ht.elim hutters .inl⟩
    obtain hnil | ⟨summary, hsummary, hinfix⟩ := hu
    · rw [hnil] at hmessage
      exact .inl (List.infix_nil.mp hmessage)
    · exact .inr ⟨summary, hsummary, hmessage.trans hinfix⟩

/-- The sessions that a turn saves. -/
theorem promises_run (send : Send κ) [DecidableEq κ] (session : List Message) :
    (session :: savedSessions (send.run session).2.log).IsChain Grows ∧
      Promises send (send.run session) ((session ::
        savedSessions (send.run session).2.log).getLast (List.cons_ne_nil _ _)) := by
  have hover : Over { send.args with userMessage := send.messageWithLinks } session
      (send.run session).1 (send.run session).2 := by
    unfold Send.run
    dsimp only
    split
    · exact runAgentLoopStreaming_over _ session
    · exact runAgentLoop_over _ session
  refine ⟨hover.grows, fun result hresult hlasting => ?_⟩
  obtain ⟨run, hrun, hvoiced, hlast⟩ := hlasting
  cases hrun
  obtain ⟨mid, hsaid, hmute, hblank⟩ := hover.answers result hresult hvoiced
  refine ⟨?_, hblank⟩
  have hgetLast : (session :: savedSessions (send.run session).2.log).getLast
      (List.cons_ne_nil _ _) = (send.run session).2.session := by
    obtain ⟨front, hfront⟩ := List.getLast?_eq_some_iff.mp hlast
    simp only [hfront, ← List.cons_append]
    exact List.getLast_append_singleton _
  have hholds : Holds send.messageWithLinks (sanitizeVisibleResponse result.response)
      (session ++ Message.user send.messageWithLinks ::
        (mid ++ [Message.assistant (sanitizeVisibleResponse result.response)])) := by
    refine Holds.behind (l := _ :: _) (Or.inl ⟨rfl, ?_, ?_⟩) session
    · exact List.mem_singleton_self _
    · exact answered_iff.mpr ⟨mid, _, [], rfl, rfl, List.mem_singleton_self _, hmute⟩
  rw [hgetLast]
  obtain hsaid | hsaid := hsaid
  · rw [hsaid]
    exact hholds
  · rw [hsaid]
    exact prune_holds hholds 10

end Invariant

section Steps

variable {κ : Type} {agentId : AgentId} {id : SessionId} {send : Send κ}
  {session : Session} {seen saved : List Message} {saves : List (List Message)}
  {run : Exit × Loop κ} {x : Answer κ} {c c' : Call κ} {s : Talk κ}

theorem Fits.of_turning (hid : c.sessionId? = none) (h : Turning c) : Fits id c :=
  ⟨fun i hi => (by rw [hid] at hi; cases hi), h⟩

theorem fits_settle (hid : session.id = id) (hgrows : (seen :: saves).IsChain Grows)
    (hpromises : Promises send run ((seen :: saves).getLast (List.cons_ne_nil _ _))) :
    Fits id (settle send session seen run saves) := by
  cases saves with
  | nil => exact .of_turning rfl trivial
  | cons saved saves =>
    refine ⟨fun i hi => ?_, hgrows, hpromises⟩
    cases hi
    exact hid

theorem fits_beginTurn [DecidableEq κ] (hid : session.id = id)
    (hseen : seen = session.messages ∨ seen = []) :
    Fits id (beginTurn send session seen) := by
  obtain ⟨hgrows, hpromises⟩ := promises_run send session.messages
  unfold beginTurn
  dsimp only
  cases hsaves : savedSessions (send.run session.messages).2.log with
  | nil => exact .of_turning rfl trivial
  | cons saved saves =>
    rw [hsaves] at hgrows hpromises
    refine fits_settle hid ?_ hpromises
    obtain rfl | rfl := hseen
    · exact hgrows
    · obtain ⟨hfirst, hrest⟩ := List.isChain_cons_cons.mp hgrows
      refine List.isChain_cons_cons.mpr ⟨?_, hrest⟩
      obtain ⟨l, -, hl⟩ := hfirst
      exact ⟨l, List.nil_prefix, hl⟩

/-- A turn that saves nothing does not last. -/
theorem not_lasting_beginTurn [DecidableEq κ] (h : (beginTurn send session seen).answer? = some x) :
    ¬ x.Lasting := by
  rintro ⟨run, hrun, -, hlast⟩
  unfold beginTurn settle at h
  dsimp only at h
  split at h
  · rename_i hsaves
    unfold Call.answer? at h
    dsimp only at h
    split at h
    · cases h
      cases hrun
      rw [hsaves] at hlast
      cases hlast
    · cases h
  · cases h

/-- A promise is kept with the last save. -/
theorem Promises.safe {last : List Message} {store : SessionStore} {messagesBefore : Nat}
    (h : Promises send run last)
    (hx : (Call.ended send messagesBefore run).answer? = some x) (hlasting : x.Lasting)
    (hrow : row store id = last) : Safe agentId store id x := by
  rw [Call.answer?] at hx
  split at hx
  · rename_i result hresult
    cases hx
    obtain ⟨hholds, hblank⟩ := h result hresult hlasting
    rw [← hrow] at hholds
    exact ⟨hblank, .inl hholds⟩
  · cases hx

theorem mem_due : x ∈ s.due ↔ x ∈ s.answered ∨ ∃ c ∈ s.calls, c.answer? = some x := by
  rw [Talk.due, List.mem_append, List.mem_filterMap]

/-- A call goes on in a session that keeps what is due. -/
theorem Kept.set (h : Kept agentId s) {i : Nat} (hc : s.calls[i]? = some c) {store : SessionStore}
    {answers : List (Answer κ)} (hfits : Fits s.sessionId c')
    (hanswers : ∀ x ∈ answers, c.answer? = some x ∨ ¬ x.Lasting)
    (hnew : ∀ x, c'.answer? = some x → x.Lasting → c.answer? = some x ∨
      Safe agentId store s.sessionId x)
    (hsafe : ∀ x ∈ s.due, x.Lasting → Safe agentId s.store s.sessionId x →
      Safe agentId store s.sessionId x) :
    Kept agentId { s with
      store := store
      calls := s.calls.set i c'
      answered := s.answered ++ answers } := by
  have hmem := List.mem_of_getElem? hc
  have hdue (x : Answer κ) (hx : x ∈ s.due) (hlasting : x.Lasting) :
      Safe agentId store s.sessionId x := hsafe x hx hlasting (h.due x hx hlasting)
  refine ⟨fun d hd => ?_, fun x hx hlasting => ?_⟩
  · obtain hd | rfl := List.mem_or_eq_of_mem_set hd
    · exact h.calls d hd
    · exact hfits
  obtain hx | ⟨d, hd, hdx⟩ := mem_due.mp hx
  · obtain hx | hx := List.mem_append.mp hx
    · exact hdue x (mem_due.mpr (.inl hx)) hlasting
    · obtain hcx | hnot := hanswers x hx
      · exact hdue x (mem_due.mpr (.inr ⟨c, hmem, hcx⟩)) hlasting
      · exact absurd hlasting hnot
  · obtain hd | rfl := List.mem_or_eq_of_mem_set hd
    · exact hdue x (mem_due.mpr (.inr ⟨d, hd, hdx⟩)) hlasting
    · obtain hcx | hsafe := hnew x hdx hlasting
      · exact hdue x (mem_due.mpr (.inr ⟨c, hmem, hcx⟩)) hlasting
      · exact hsafe

/-- Nothing is due while no send is on its way. -/
theorem kept_of_idle (hidle : s.Idle) {i : Nat} (hid : c'.sessionId? = none)
    (hx : c'.answer? = none) {store : SessionStore} :
    Kept agentId { s with
      store := store
      sessionId := id
      calls := s.calls.set i c'
      answered := [] } := by
  have hnone : ∀ c ∈ s.calls.set i c', c.sessionId? = none ∧ c.answer? = none := by
    intro c hc
    obtain hc | rfl := List.mem_or_eq_of_mem_set hc
    · exact hidle c hc
    · exact ⟨hid, hx⟩
  refine ⟨fun c hc => .of_turning (hnone c hc).1 ?_, fun x hx => ?_⟩
  · cases c <;> first | trivial | cases (hnone _ hc).1
  · obtain hx | ⟨c, hc, hcx⟩ := mem_due.mp hx
    · cases hx
    · rw [(hnone c hc).2] at hcx
      cases hcx

/-- The session grows. -/
theorem Safe.grow (h : Safe agentId s.store id x) (hid : session.id = id) {l : List Message}
    (hholds : Holds x.send.messageWithLinks x.stored (row s.store id) →
      Holds x.send.messageWithLinks x.stored l)
    (hutters : Utters x.stored (row s.store id) → Utters x.stored l) :
    Safe agentId (s.save session l).store id x := by
  have hrow : row (s.save session l).store id = l := by
    rw [Talk.save, row_saveSession, if_pos hid.symm]
  rw [Safe, hrow]
  exact ⟨h.1, h.2.imp hholds fun ⟨hu, ht⟩ => ⟨hu, ht.imp_left hutters⟩⟩

/-- Another session is saved. -/
theorem Safe.frame (h : Safe agentId s.store id x) (hid : session.id ≠ id) {l : List Message} :
    Safe agentId (s.save session l).store id x := by
  have hrow : row (s.save session l).store id = row s.store id := by
    rw [Talk.save, row_saveSession, if_neg (Ne.symm hid)]
  rw [Safe, hrow]
  exact h

/-- The summary is replaced by one that has what it had. -/
theorem Safe.spare {canonical : CanonicalSession} (h : Safe agentId s.store id x)
    (hspares : Spares agentId s canonical) (hx : x ∈ s.due) (hlasting : x.Lasting) :
    Safe agentId (s.store.saveCanonical canonical) id x := by
  have htext := hspares x hx hlasting
  refine ⟨h.1, h.2.imp_right fun ⟨hu, ht⟩ => ⟨htext _ (by simp) hu, ht.imp_right ?_⟩⟩
  exact htext _ (by simp)

theorem inSummary_save {l : List Message} {text : Str} :
    InSummary agentId (s.save session l).store text ↔ InSummary agentId s.store text := Iff.rfl

/-- The older messages are cut off, and are in the summary. -/
theorem Safe.shrink (h : Safe agentId s.store id x) (hid : session.id = id)
    (hrow : row s.store id = session.messages)
    (hcut : ∀ text ∈ [x.send.messageWithLinks, x.stored],
      (∃ m ∈ toCompact session.messages, text ∈ texts m) → InSummary agentId s.store text) :
    Safe agentId (s.save session (validateAndRepair (keptMessages session.messages))).store id
      x := by
  have hsaved : row (s.save session (validateAndRepair (keptMessages session.messages))).store id =
      validateAndRepair (keptMessages session.messages) := by
    rw [Talk.save, row_saveSession, if_pos hid.symm]
  have hsafe := h.2
  rw [hrow] at hsafe
  rw [Safe, hsaved, inSummary_save, inSummary_save]
  exact ⟨h.1, compact_keeps (retains_repair _) h.1 .inl (hcut _ (by simp)) (hcut _ (by simp)) hsafe⟩

theorem answer_afterCompaction (next : Next κ) : (afterCompaction next).answer? = none := by
  cases next <;> rfl

theorem fits_afterCompaction {next : Next κ} (h : ∀ p, next = some p → p.2.id = id) :
    Fits id (afterCompaction next) := by
  cases next with
  | none => exact .of_turning rfl trivial
  | some p =>
    refine ⟨fun i hi => ?_, trivial⟩
    cases hi
    exact h p rfl

variable [DecidableEq κ]

/-- A turn that begins is no answer yet. -/
theorem Kept.begin (h : Kept agentId s) {i : Nat} (hc : s.calls[i]? = some c)
    (hid : session.id = s.sessionId) (hseen : seen = session.messages ∨ seen = []) :
    Kept agentId { s with
      calls := s.calls.set i (beginTurn send session seen), answered := s.answered ++ [] } :=
  h.set hc (fits_beginTurn hid hseen) (fun _ hx => absurd hx List.not_mem_nil)
    (fun _ hx hlasting => absurd hlasting (not_lasting_beginTurn hx)) fun _ _ _ hsafe => hsafe

/-- What is left of a compaction for its turn. -/
theorem Kept.next (h : Kept agentId s) {i : Nat} (hc : s.calls[i]? = some c)
    {p : Send κ × Session} (hid : c.sessionId? = some p.2.id) :
    Kept agentId { s with
      calls := s.calls.set i (beginTurn p.1 p.2 p.2.messages), answered := s.answered ++ [] } :=
  h.begin hc ((h.calls c (List.mem_of_getElem? hc)).session _ hid) (.inl rfl)

theorem kept_abandon (h : Kept agentId s) {i : Nat} (hc : s.calls[i]? = some c) :
    Kept agentId { s with
      calls := s.calls.set i (abandon c).1, answered := s.answered ++ (abandon c).2 } := by
  have hdone {answers : List (Answer κ)} (hanswers : ∀ x ∈ answers, c.answer? = some x) :
      Kept agentId { s with
        calls := s.calls.set i .done, answered := s.answered ++ answers } :=
    h.set hc (.of_turning rfl trivial) (fun x hx => .inl (hanswers x hx))
      (fun x hx => by cases hx) fun _ _ _ hsafe => hsafe
  have hover := @hdone [] fun _ hx => absurd hx List.not_mem_nil
  have hnext {next : Next κ} {f : Next κ → Call κ} (hf : c = f next)
      (hid : ∀ p, (f (some p)).sessionId? = some p.2.id)
      (habandon : ∀ p, abandon (f (some p)) = (beginTurn p.1 p.2 p.2.messages, []))
      (hnone : abandon (f none) = (.done, [])) : Kept agentId { s with
        calls := s.calls.set i (abandon c).1, answered := s.answered ++ (abandon c).2 } := by
    cases next with
    | none =>
      rw [hf, hnone]
      exact hover
    | some p =>
      rw [hf, habandon p]
      exact h.next hc (by rw [hf, hid p])
  cases c with
  | send send => exact hover
  | load send id => exact hover
  | compact summary next =>
    exact hnext (f := .compact summary) rfl (fun _ => rfl) (fun _ => rfl) rfl
  | loadOld summary next id =>
    exact hnext (f := (.loadOld summary · id)) rfl (fun _ => rfl) (fun _ => rfl) rfl
  | summarize summary next session =>
    exact hnext (f := (.summarize summary · session)) rfl (fun _ => rfl) (fun _ => rfl) rfl
  | storeSummary canonical next session =>
    exact hnext (f := (.storeSummary canonical · session)) rfl (fun _ => rfl) (fun _ => rfl) rfl
  | shrink next session =>
    exact hnext (f := (.shrink · session)) rfl (fun _ => rfl) (fun _ => rfl) rfl
  | reload send session => exact h.next (p := (send, session)) hc rfl
  | turn send session seen saves run => exact hover
  | ended send messagesBefore run =>
    obtain ⟨exit, loop⟩ := run
    cases exit with
    | returned result =>
      exact hdone fun x hx => congrArg some (List.mem_singleton.mp hx).symm
    | _ => exact hover
  | append answer canonical =>
    exact hdone fun x hx => congrArg some (List.mem_singleton.mp hx).symm
  | reset deleted new => exact hover
  | delete deleted id new => exact hover
  | create new => exact hover
  | point new => exact hover
  | done => exact hover

/-- What a call has become, with what it returns, in its place. -/
def placed (s : Talk κ) (i : Nat) (taken : Talk κ × Call κ × List (Answer κ)) : Talk κ :=
  { taken.1 with
    calls := s.calls.set i taken.2.1
    answered := taken.1.answered ++ taken.2.2 }

theorem step_of_call {i : Nat} (hc : s.calls[i]? = some c) :
    (step agentId s (.step i)).1 = placed s i (advance agentId s c) := by
  rw [step, hc]
  rfl

section Calls

variable {i : Nat} {id : SessionId} {next : Next κ} {answers : List (Answer κ)}

omit [DecidableEq κ] in
/-- The call goes on without an answer, and nothing is saved. -/
theorem Kept.quiet (h : Kept agentId s) (hc : s.calls[i]? = some c)
    (hsession : ∀ j, c'.sessionId? = some j → c.sessionId? = some j) (hturning : Turning c')
    (hx : c'.answer? = none) : Kept agentId (placed s i (s, c', [])) := by
  have hfits := h.calls c (List.mem_of_getElem? hc)
  refine h.set hc ⟨fun j hj => hfits.session j (hsession j hj), hturning⟩
    (List.forall_mem_nil _) (fun x hx' => ?_) fun _ _ _ hsafe => hsafe
  rw [hx] at hx'
  cases hx'

omit [DecidableEq κ] in
theorem Kept.over (h : Kept agentId s) (hc : s.calls[i]? = some c)
    (hanswers : ∀ x ∈ answers, c.answer? = some x ∨ ¬ x.Lasting) :
    Kept agentId (placed s i (s, .done, answers)) :=
  h.set hc (.of_turning rfl trivial) hanswers (fun x hx => by cases hx)
    fun _ _ _ hsafe => hsafe

omit [DecidableEq κ] in
/-- The compaction of a call is over. -/
theorem Kept.compacted (h : Kept agentId s) (hc : s.calls[i]? = some c)
    (hid : ∀ p, next = some p → c.sessionId? = some p.2.id) {store : SessionStore}
    (hsafe : ∀ x ∈ s.due, x.Lasting → Safe agentId s.store s.sessionId x →
      Safe agentId store s.sessionId x) :
    Kept agentId (placed s i ({ s with store := store }, afterCompaction next, [])) := by
  have hfits := h.calls c (List.mem_of_getElem? hc)
  refine h.set hc (fits_afterCompaction fun p hp => hfits.session _ (hid p hp))
    (List.forall_mem_nil _) (fun x hx => ?_) hsafe
  cases (answer_afterCompaction next).symm.trans hx

theorem kept_send (h : Kept agentId s) (hc : s.calls[i]? = some (.send send)) :
    Kept agentId (placed s i (advance agentId s (.send send))) := by
  rw [advance]
  split
  · refine h.set hc ⟨fun j hj => ?_, trivial⟩ (List.forall_mem_nil _)
      (fun x hx => by cases hx) fun _ _ _ hsafe => hsafe
    cases hj
    rfl
  · refine h.over hc fun x hx => .inr ?_
    obtain ⟨result, -, rfl⟩ := Option.map_eq_some_iff.mp (Option.mem_toList.mp hx)
    rintro ⟨run, hrun, -⟩
    cases hrun

theorem kept_load (h : Kept agentId s) (hc : s.calls[i]? = some (.load send id)) :
    Kept agentId (placed s i (advance agentId s (.load send id))) := by
  have hfits := h.calls _ (List.mem_of_getElem? hc)
  have hid : (s.loadSession agentId id).id = s.sessionId :=
    (loadSession_id agentId s id).trans (hfits.session id rfl)
  rw [advance]
  split
  · refine h.set hc ⟨fun j hj => ?_, trivial⟩ (List.forall_mem_nil _)
      (fun x hx => by cases hx) fun _ _ _ hsafe => hsafe
    cases hj
    exact hid
  · exact h.begin hc hid (.inl rfl)

theorem kept_loadOld {summary : List Message → Str}
    (h : Kept agentId s) (hc : s.calls[i]? = some (.loadOld summary next id)) :
    Kept agentId (placed s i (advance agentId s (.loadOld summary next id))) := by
  rw [advance]
  split
  · exact h.quiet hc (fun j hj => hj) trivial rfl
  · exact h.compacted hc (fun p hp => by rw [hp]; rfl) fun _ _ _ hsafe => hsafe

theorem kept_reload (h : Kept agentId s) (hc : s.calls[i]? = some (.reload send session)) :
    Kept agentId (placed s i (advance agentId s (.reload send session))) := by
  have hid : session.id = s.sessionId :=
    (h.calls _ (List.mem_of_getElem? hc)).session _ rfl
  rw [advance]
  split
  · rename_i row _
    let reloaded : Session := { row with id := session.id }
    exact @Kept.begin _ _ send reloaded _ _ _ _ h _ hc hid (.inl rfl)
  · exact h.begin hc hid (.inr rfl)

theorem kept_turn {saves : List (List Message)} {run : Exit × Loop κ}
    (h : Kept agentId s) (hc : s.calls[i]? = some (.turn send session seen saves run))
    (hop : session.id = s.sessionId → row s.store s.sessionId = seen) :
    Kept agentId (placed s i (advance agentId s (.turn send session seen saves run))) := by
  have hfits := h.calls _ (List.mem_of_getElem? hc)
  have hid : session.id = s.sessionId := hfits.session _ rfl
  obtain ⟨hgrows, hpromises⟩ := hfits.turning
  cases saves with
  | nil =>
    refine h.set hc (.of_turning rfl trivial) (List.forall_mem_nil _)
      (fun x hx hlasting => .inr ?_) fun _ _ _ hsafe => hsafe
    exact hpromises.safe hx hlasting (hop hid)
  | cons saved saves =>
    obtain ⟨hfirst, hrest⟩ := List.isChain_cons_cons.mp hgrows
    refine h.set hc (fits_settle hid hrest hpromises) (List.forall_mem_nil _)
      (fun x hx hlasting => .inr ?_) fun x hx hlasting hsafe => ?_
    · cases saves with
      | nil => exact hpromises.safe hx hlasting (row_saveSession.trans (if_pos hid.symm))
      | cons _ _ => cases hx
    · have hrow := hop hid
      rw [← hrow] at hfirst
      exact hsafe.grow hid (Grows.holds hfirst) (Grows.utters hfirst)

theorem kept_ended {messagesBefore : Nat} {run : Exit × Loop κ}
    (h : Kept agentId s) (hc : s.calls[i]? = some (.ended send messagesBefore run)) :
    Kept agentId (placed s i (advance agentId s (.ended send messagesBefore run))) := by
  rw [advance]
  split
  · rename_i result hresult
    have hanswer : (Call.ended send messagesBefore run).answer? =
        some ⟨send, some run, result⟩ := by
      rw [Call.answer?, hresult]
    split
    · split
      · refine h.set hc (.of_turning rfl trivial) (List.forall_mem_nil _)
          (fun x hx _ => .inl ?_) fun _ _ _ hsafe => hsafe
        exact hanswer.trans hx
      · exact h.over hc (List.forall_mem_nil _)
    · refine h.over hc fun x hx => .inl ?_
      rw [List.mem_singleton.mp hx]
      exact hanswer
  · exact h.over hc (List.forall_mem_nil _)

end Calls

theorem kept_call (request : Request κ) (h : Kept agentId s) :
    Kept agentId (step agentId s (.call request)).1 := by
  refine ⟨fun c hc => ?_, fun x hx hlasting => ?_⟩
  · obtain hc | hc := List.mem_append.mp hc
    · exact h.calls c hc
    · rw [List.mem_singleton.mp hc]
      cases request <;> exact .of_turning rfl trivial
  · refine h.due x (mem_due.mpr ?_) hlasting
    obtain hx | ⟨c, hc, hcx⟩ := mem_due.mp hx
    · exact .inl hx
    obtain hc | hc := List.mem_append.mp hc
    · exact .inr ⟨c, hc, hcx⟩
    · rw [List.mem_singleton.mp hc] at hcx
      cases request <;> cases hcx

/-- One step keeps what is due. -/
theorem kept_step (op : Op κ) (h : Kept agentId s) (hop : Undisturbed agentId s op) :
    Kept agentId (step agentId s op).1 := by
  cases op with
  | call request => exact kept_call request h
  | fail i =>
    rw [step]
    cases hc : s.calls[i]? with
    | none => exact h
    | some c => exact kept_abandon h hc
  | step i =>
    rw [Undisturbed] at hop
    cases hc : s.calls[i]? with
    | none =>
      rw [step, hc]
      exact h
    | some c =>
      rw [hc] at hop
      rw [step_of_call hc]
      cases c with
      | send send => exact kept_send h hc
      | load send id => exact kept_load h hc
      | compact summary next => exact h.quiet hc (fun j hj => hj) trivial rfl
      | loadOld summary next id => exact kept_loadOld h hc
      | summarize summary next session => exact h.quiet hc (fun j hj => hj) trivial rfl
      | storeSummary canonical next session =>
        have hfits := h.calls _ (List.mem_of_getElem? hc)
        refine h.set hc ⟨hfits.session, trivial⟩ (List.forall_mem_nil _)
          (fun x hx => by cases hx) ?_
        exact fun x hx hlasting hsafe => hsafe.spare hop hx hlasting
      | shrink next session =>
        refine h.compacted hc (fun p hp => by rw [hp]; rfl) fun x hx hlasting hsafe => ?_
        by_cases hid : session.id = s.sessionId
        · obtain ⟨hrow, hcut⟩ := hop hid
          exact hsafe.shrink hid hrow (hcut x hx hlasting)
        · exact hsafe.frame hid
      | reload send session => exact kept_reload h hc
      | turn send session seen saves run => exact kept_turn h hc hop
      | ended send messagesBefore run => exact kept_ended h hc
      | append answer canonical =>
        refine h.set hc (.of_turning rfl trivial) ?_ (fun x hx => by cases hx) ?_
        · rintro x hx
          exact .inl (congrArg some (List.mem_singleton.mp hx).symm)
        · exact fun x hx hlasting hsafe => hsafe.spare hop hx hlasting
      | reset deleted new => exact h.quiet hc (fun j hj => by cases hj) trivial rfl
      | delete deleted id new => exact kept_of_idle hop rfl rfl
      | create new =>
        obtain ⟨hidle, hnone⟩ := hop
        have hkept := @kept_of_idle _ agentId s.sessionId (.point new) s hidle i rfl rfl
          (s.store.createSession agentId new)
        have hanswered : s.answered ++ [] = [] := by rw [hnone]; rfl
        rw [← hanswered] at hkept
        exact hkept
      | point new =>
        obtain ⟨hidle, hnone⟩ := hop
        have hkept := @kept_of_idle _ agentId new .done s hidle i rfl rfl s.store
        have hanswered : s.answered ++ [] = [] := by rw [hnone]; rfl
        rw [← hanswered] at hkept
        exact hkept
      | done => exact h.quiet hc (fun j hj => by cases hj) trivial rfl

end Steps

section Runs

variable {κ : Type} [DecidableEq κ] {agentId : AgentId} {s : Talk κ}

/-- No call was made, and none has returned. -/
structure Fresh (s : Talk κ) : Prop where
  calls : s.calls = []
  answered : s.answered = []

omit [DecidableEq κ] in
theorem Fresh.kept (h : Fresh s) : Kept agentId s := by
  refine ⟨fun c hc => ?_, fun x hx => ?_⟩
  · rw [h.calls] at hc
    cases hc
  · rw [Talk.due, h.calls, h.answered] at hx
    cases hx

/-- Where no call disturbs another and every summary has what it replaces, the sends that returned
`Ok` since the last reset are remembered, with the answer as it was stored. -/
theorem run_remembers (hfresh : Fresh s) {ops : List (Op κ)}
    (hops : Allowed (step agentId) (Undisturbed agentId) s ops) :
    (run (step agentId) s ops).1.Remembers agentId Answer.stored Answer.Lasting := by
  have hkept : Kept agentId (run (step agentId) s ops).1 :=
    run_invariant_of_allowed (step agentId) (fun s _ => Kept agentId s)
      (fun _ _ op hs hop => kept_step op hs hop) hfresh.kept hops
  exact fun x hx hlasting => (hkept.due x (mem_due.mpr (.inl hx)) hlasting).contains

end Runs

section Examples

open Clawreform.Lib.Json (Value)

/-- A send that the driver answers at once. -/
def asks (module message answer : String) : Send (Str × Value) where
  streaming := false
  module := module.toList
  systemPrompt := []
  message := message.toList
  linkContext := none
  args := scripted none [⟨[.text answer.toList], .endTurn, [], ⟨0, 0⟩⟩] fun _ => []
  external := some ⟨answer.toList, ⟨0, 0⟩, 1, false, noDirectives⟩
  summary := fun _ => []

/-- A send with so many tool calls that the session is compacted behind it. -/
def asksLong : Send (Str × Value) :=
  { asks "builtin:chat" "one" "" with
    args := scripted none ((List.range 15).map (fun n => callResponse ⟨showNat n, ['t'],
      .number (showNat n)⟩) ++ [⟨[.text "done".toList], .endTurn, [], ⟨0, 0⟩⟩]) fun _ => ['r'] }

def quietTalk : Talk (Str × Value) := ⟨⟨∅, ∅⟩, 1, [], []⟩

def compacted (summary : String) : List (Op (Str × Value)) :=
  .call (.sendMessage asksLong) :: List.replicate 20 (.step 0) ++
    .call (.compactAgentSession fun _ => summary.toList) :: List.replicate 5 (.step 1)

theorem run_remembers_compacted :
    (run (step 7) quietTalk (compacted "One said one.")).1.Remembers 7 Answer.stored
      Answer.Lasting :=
  run_remembers ⟨rfl, rfl⟩ (by decide +kernel)

/-- Two sends that load the session before either has saved it. -/
def overlapping : List (Op (Str × Value)) :=
  [.call (.sendMessage (asks "builtin:chat" "one" "first")),
    .call (.sendMessage (asks "builtin:chat" "two" "second"))] ++
    (List.replicate 5 [.step 0, .step 1]).flatten

/-- The runtime of a WASM agent keeps no session, a summary need not say what was said, and the
later save of two is the one that counts. -/
theorem run_not_remembers :
    ¬ (run (step 7) quietTalk [.call (.sendMessage (asks "wasm:tool" "ping" "pong")),
        .step 0]).1.Remembers 7 (·.result.response) (fun _ => True) ∧
      ¬ (run (step 7) quietTalk (compacted "They talked.")).1.Remembers 7 (·.result.response)
        (fun _ => True) ∧
      ¬ (run (step 7) quietTalk overlapping).1.Remembers 7 (·.result.response)
        (fun _ => True) := by
  decide +kernel

end Examples

end Clawreform.Kernel.Conversation
