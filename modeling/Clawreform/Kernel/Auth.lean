import Clawreform.Lib.Infix
import Clawreform.Lib.Store
import Clawreform.Types.Agent

namespace Clawreform.Kernel.Auth

open Clawreform.Lib.Text Clawreform.Lib.Store Clawreform.Lib.Infix Clawreform.Types

abbrev UserId := Uuid

inductive UserRole where
  | viewer
  | user
  | admin
  | owner
  deriving DecidableEq

structure UserConfig where
  name : Str
  role : Str
  channelBindings : Map Str Str
  deriving DecidableEq

structure UserIdentity where
  id : UserId
  name : Str
  role : UserRole
  deriving DecidableEq

structure AuthManager where
  users : Map UserId UserIdentity
  channelIndex : Map Str UserId
  deriving DecidableEq

section Manager

variable (toLowercase : Str → Str)

def fromStrRole (s : Str) : UserRole :=
  if toLowercase s = "owner".toList then .owner
  else if toLowercase s = "admin".toList then .admin
  else if toLowercase s = "viewer".toList then .viewer
  else .user

def bindingKey (channelType platformId : Str) : Str := joined ':' channelType platformId

/-- One round of the loop in `new`: `userId` is the random id of the user. -/
def register (m : AuthManager) (userId : UserId) (config : UserConfig) : AuthManager where
  users := m.users.insert userId ⟨userId, config.name, fromStrRole toLowercase config.role⟩
  channelIndex := config.channelBindings.entries.foldl
    (fun index b => index.insert (bindingKey b.1 b.2) userId) m.channelIndex

/-- Every configuration comes with the random id that is drawn for it. -/
def new (userConfigs : List (UserId × UserConfig)) : AuthManager :=
  userConfigs.foldl (fun m c => register toLowercase m c.1 c.2) ⟨∅, ∅⟩

def identify (m : AuthManager) (channelType platformId : Str) : Option UserId :=
  m.channelIndex.lookup (bindingKey channelType platformId)

end Manager

section Identify

variable {toLowercase : Str → Str} {config : UserConfig} {channelType platformId key : Str}

/-- The user has this very binding. -/
def Binds (config : UserConfig) (channelType platformId : Str) : Prop :=
  config.channelBindings.lookup channelType = some platformId

/-- The user has a binding that is spelled like this. -/
def Spelled (config : UserConfig) (key : Str) : Prop :=
  ∃ channelType platformId, Binds config channelType platformId ∧
    bindingKey channelType platformId = key

theorem Binds.spelled (h : Binds config channelType platformId) :
    Spelled config (bindingKey channelType platformId) := ⟨_, _, h, rfl⟩

theorem spelled_iff : Spelled config key ↔
    ∃ b ∈ config.channelBindings.entries, bindingKey b.1 b.2 = key := by
  constructor
  · rintro ⟨c, p, hb, hkey⟩
    exact ⟨⟨c, p⟩, mem_entries.mpr hb, hkey⟩
  · rintro ⟨⟨c, p⟩, hb, hkey⟩
    exact ⟨c, p, mem_entries.mp hb, hkey⟩

section Index

variable {κ ν β : Type*} [DecidableEq κ] {f : β → κ} {v : ν} {bs : List β} {s : Map κ ν} {k : κ}

theorem lookup_foldl_insert_of_not (h : ¬ ∃ b ∈ bs, f b = k) :
    (bs.foldl (fun s b => s.insert (f b) v) s).lookup k = s.lookup k := by
  induction bs generalizing s with
  | nil => rfl
  | cons b bs ih =>
    have hb : k ≠ f b := fun heq => h ⟨b, List.mem_cons_self .., heq.symm⟩
    rw [List.foldl_cons, ih fun ⟨c, hc, heq⟩ => h ⟨c, List.mem_cons_of_mem _ hc, heq⟩,
      lookup_insert, if_neg hb]

theorem lookup_foldl_insert_of_mem (h : ∃ b ∈ bs, f b = k) :
    (bs.foldl (fun s b => s.insert (f b) v) s).lookup k = some v := by
  induction bs generalizing s with
  | nil => simp at h
  | cons b bs ih =>
    by_cases hlater : ∃ c ∈ bs, f c = k
    · exact ih hlater
    · obtain ⟨c, hc, heq⟩ := h
      obtain rfl | hc := List.mem_cons.mp hc
      · rw [List.foldl_cons, lookup_foldl_insert_of_not hlater, lookup_insert, if_pos heq.symm]
      · exact absurd ⟨c, hc, heq⟩ hlater

end Index

/-- The last user with a binding spelled like the one asked for is identified. -/
theorem identify_new_iff {users : List (UserId × UserConfig)} {id : UserId} :
    identify (new toLowercase users) channelType platformId = some id ↔
      ∃ before config after, users = before ++ (id, config) :: after ∧
        Spelled config (bindingKey channelType platformId) ∧
        ∀ other ∈ after, ¬ Spelled other.2 (bindingKey channelType platformId) := by
  induction users using List.reverseRecOn with
  | nil => exact iff_of_false nofun fun ⟨before, _, _, h, _⟩ => by simp at h
  | append_singleton users last ih =>
    rw [new, List.foldl_append]
    by_cases hlast : Spelled last.2 (bindingKey channelType platformId)
    · have hfound : identify (register toLowercase (new toLowercase users) last.1 last.2)
          channelType platformId = some last.1 :=
        lookup_foldl_insert_of_mem (spelled_iff.mp hlast)
      refine Iff.trans (Eq.congr_left hfound) ?_
      constructor
      · intro h
        obtain rfl := Option.some.inj h
        exact ⟨users, last.2, [], rfl, hlast, nofun⟩
      · rintro ⟨before, config, after, heq, -, hafter⟩
        cases after using List.reverseRecOn with
        | nil =>
          obtain rfl : last = (id, config) := by simpa using (List.append_inj' heq rfl).2
          rfl
        | append_singleton after other =>
          rw [← List.cons_append, ← List.append_assoc] at heq
          obtain rfl : last = other := by simpa using (List.append_inj' heq rfl).2
          exact absurd hlast (hafter last (by simp))
    · have hkept : identify (register toLowercase (new toLowercase users) last.1 last.2)
          channelType platformId = identify (new toLowercase users) channelType platformId :=
        lookup_foldl_insert_of_not (fun h => hlast (spelled_iff.mpr h))
      refine Iff.trans (Eq.congr_left hkept) (ih.trans ?_)
      constructor
      · rintro ⟨before, config, after, rfl, hspelled, hafter⟩
        refine ⟨before, config, after ++ [last], by simp, hspelled, fun other hother => ?_⟩
        obtain hother | hother := List.mem_append.mp hother
        · exact hafter other hother
        · rwa [List.mem_singleton.mp hother]
      · rintro ⟨before, config, after, heq, hspelled, hafter⟩
        cases after using List.reverseRecOn with
        | nil =>
          obtain rfl : last = (id, config) := by simpa using (List.append_inj' heq rfl).2
          exact absurd hspelled hlast
        | append_singleton after other =>
          rw [← List.cons_append, ← List.append_assoc] at heq
          exact ⟨before, config, after, (List.append_inj' heq rfl).1, hspelled,
            fun c hc => hafter c (List.mem_append_left _ hc)⟩

/-- A user is identified only by a binding of its own. -/
def IdentifiesBound (toLowercase : Str → Str) (users : List (UserId × UserConfig))
    (channelType platformId : Str) : Prop :=
  ∀ id, identify (new toLowercase users) channelType platformId = some id →
    ∃ config, (id, config) ∈ users ∧ Binds config channelType platformId

/-- When a binding is spelled like the one asked for, its user or a later one with such a binding
has the one asked for. -/
def SpelledByOwner (users : List (UserId × UserConfig)) (channelType platformId : Str) : Prop :=
  ∀ before user after, users = before ++ user :: after →
    Spelled user.2 (bindingKey channelType platformId) →
    Binds user.2 channelType platformId ∨
      ∃ other ∈ after, Spelled other.2 (bindingKey channelType platformId)

theorem identifiesBound_iff (toLowercase : Str → Str) {users : List (UserId × UserConfig)}
    (hids : (users.map Prod.fst).Nodup) (channelType platformId : Str) :
    IdentifiesBound toLowercase users channelType platformId ↔
      SpelledByOwner users channelType platformId := by
  constructor
  · intro h before user after heq hspelled
    by_contra hnot
    rw [not_or] at hnot
    obtain ⟨config, hmem, hbinds⟩ := h user.1 (identify_new_iff.mpr ⟨before, user.2, after, heq,
      hspelled, fun other hother hs => hnot.2 ⟨other, hother, hs⟩⟩)
    have hsame : (user.1, config) = user := List.inj_on_of_nodup_map hids hmem
      (heq ▸ List.mem_append_right before (List.mem_cons_self ..)) rfl
    exact hnot.1 (hsame ▸ hbinds)
  · intro h id hidentify
    obtain ⟨before, config, after, heq, hspelled, hafter⟩ := identify_new_iff.mp hidentify
    refine ⟨config, heq ▸ List.mem_append_right before (List.mem_cons_self ..),
      (h before (id, config) after heq hspelled).resolve_right ?_⟩
    exact fun ⟨other, hother, hs⟩ => hafter other hother hs

/-- No channel has the separator in its name. -/
theorem spelledByOwner_of_plain {users : List (UserId × UserConfig)} (hchannel : ':' ∉ channelType)
    (husers : ∀ user ∈ users, ∀ name ∈ user.2.channelBindings, ':' ∉ name) :
    SpelledByOwner users channelType platformId := by
  rintro before user after rfl ⟨c, p, hbinds, hkey⟩
  have hc : ':' ∉ c := husers user (by simp) c (AList.lookup_isSome.mp (by rw [hbinds]; rfl))
  obtain ⟨rfl, rfl⟩ := joined_inj hc hchannel hkey
  exact .inl hbinds

end Identify

/-- A user of a channel whose name has no separator in it, but whose id there has. -/
def host : UserConfig := ⟨['h'], ['o'], (∅ : Map Str Str).insert ['m'] ['a', ':', 'b']⟩

theorem identifiesBound_iff_host :
    IdentifiesBound id [(7, host)] ['m'] ['a', ':', 'b'] ∧
      (IdentifiesBound id [(7, host)] ['m', ':', 'a'] ['b'] ↔
        SpelledByOwner [(7, host)] ['m', ':', 'a'] ['b']) := by
  have hids : (([(7, host)] : List (UserId × UserConfig)).map Prod.fst).Nodup := by decide
  refine ⟨(identifiesBound_iff id hids _ _).mpr (spelledByOwner_of_plain (by decide) ?_),
    identifiesBound_iff id hids _ _⟩
  intro user huser name hname
  obtain rfl := List.mem_singleton.mp huser
  obtain rfl | hnone := (AList.mem_insert _).mp hname
  · decide
  · exact absurd hnone (AList.notMem_empty name)

/-- The host is identified where it has no binding. -/
theorem identify_other_binding :
    identify (new id [(7, host)]) ['m', ':', 'a'] ['b'] = some 7 ∧
      ¬ ∀ (toLowercase : Str → Str) (users : List (UserId × UserConfig)),
        (users.map Prod.fst).Nodup → ∀ channelType platformId,
          IdentifiesBound toLowercase users channelType platformId := by
  have hfound : identify (new id [(7, host)]) ['m', ':', 'a'] ['b'] = some 7 := rfl
  refine ⟨hfound, fun h => ?_⟩
  obtain ⟨config, hmem, hbinds⟩ := h id [(7, host)] (by decide) ['m', ':', 'a'] ['b'] 7 hfound
  obtain ⟨-, rfl⟩ := Prod.mk.inj (List.mem_singleton.mp hmem)
  revert hbinds
  unfold Binds
  decide

end Clawreform.Kernel.Auth
