import Clawreform.Api.Routes

namespace Clawreform.Api

open Clawreform.Lib.Text Clawreform.Lib.PathRouter

inductive IpAddr where
  | v4 (bits : BitVec 32)
  | v6 (bits : BitVec 128)
  deriving DecidableEq

def IpAddr.isLoopback : IpAddr → Bool
  | .v4 bits => bits.extractLsb' 24 8 = 127#8
  | .v6 bits => bits = 1#128

/-- A request as the middleware sees it. Header names are in lower case, and there is no
peer where the connection information is missing. -/
structure Request where
  method : Method
  path : Str
  query : Option Str
  headers : List (Str × List UInt8)
  peer : Option IpAddr
  deriving DecidableEq

inductive AuthOutcome where
  | next
  | reject (status : Nat) (error : Str)
  deriving DecidableEq

section Code

def isLoopbackRequest (request : Request) : Bool := (request.peer.map IpAddr.isLoopback).getD false

def publicPaths : List String :=
  ["/", "/api/health", "/api/health/detail", "/api/status", "/api/version", "/api/agents",
    "/api/profiles", "/api/config", "/api/models", "/api/models/aliases", "/api/providers",
    "/api/budget", "/api/budget/agents", "/api/network/status", "/api/a2a/agents",
    "/api/approvals", "/api/channels", "/api/skills", "/api/sessions", "/api/integrations",
    "/api/integrations/available", "/api/integrations/health"]

def publicPrefixes : List String := ["/api/uploads/", "/api/budget/agents/", "/api/cron/"]

def isPublicDashboardPath (path : Str) : Bool :=
  publicPaths.any (path = ·.toList) || publicPrefixes.any (·.toList <+: path)

/-- The text before the first slash and the text after it. -/
def splitOnceSlash : Str → Option (Str × Str)
  | [] => none
  | c :: s => if c = '/' then some ([], s) else (splitOnceSlash s).map fun p => (c :: p.1, p.2)

def isLocalObsidianBootstrapRequest (request : Request) : Bool :=
  if !isLoopbackRequest request then false
  else if request.method = .post ∧ request.path = "/api/agents".toList then true
  else
    match stripPrefix "/api/agents/".toList request.path with
    | none => false
    | some suffix =>
      match splitOnceSlash suffix with
      | none => false
      | some (_, rest) =>
        (request.method = .get && rest = "files".toList) ||
          ((request.method = .get || request.method = .put) && "files/".toList <+: rest)

/-- The text of a header value, whose bytes have to be visible. -/
def toStr (value : List UInt8) : Option Str :=
  if value.all fun b => (32 ≤ b && b < 127) || b = 9 then
    some (value.map fun b => Char.ofNat b.toNat)
  else none

def bearerToken (request : Request) : Option Str :=
  (((request.headers.find? (·.1 = "authorization".toList)).map (·.2)).bind toStr).bind
    (stripPrefix "Bearer ".toList)

def queryToken (request : Request) : Option Str :=
  request.query.bind fun q => (q.splitOn '&').findSome? (stripPrefix "token=".toList)

/-- The answer of the middleware for a configured key: the request goes on to its handler
or is turned down. -/
def auth (apiKey : Str) (request : Request) : AuthOutcome :=
  if apiKey = [] then
    if !isLoopbackRequest request then
      .reject 403 ("No API key configured. Remote access denied. " ++
        "Configure api_key in ~/.clawreform/config.toml").toList
    else .next
  else if isPublicDashboardPath request.path || isLocalObsidianBootstrapRequest request then .next
  else
    let headerAuth := (bearerToken request).map (constantTimeEq · apiKey)
    let queryAuth := (queryToken request).map (constantTimeEq · apiKey)
    if headerAuth = some true ∨ queryAuth = some true then .next
    else if headerAuth.isSome || queryAuth.isSome then .reject 401 "Invalid API key".toList
    else .reject 401 "Missing Authorization: Bearer <api_key> header".toList

end Code

section Credentials

/-- A header or the query string carries exactly the key. -/
def CarriesKey (apiKey : Str) (request : Request) : Prop :=
  (∃ value, ("authorization".toList, value) ∈ request.headers ∧
    value.map (fun b => Char.ofNat b.toNat) = "Bearer ".toList ++ apiKey) ∨
  ∃ q ∈ request.query, "token=".toList ++ apiKey ∈ q.splitOn '&'

theorem stripPrefix_eq {pat s t : Str} (h : stripPrefix pat s = some t) : s = pat ++ t := by
  obtain ⟨⟨u, rfl⟩, hdrop⟩ := Option.ite_none_right_eq_some.mp h
  rw [List.drop_left] at hdrop
  rw [Option.some.inj hdrop]

theorem toStr_eq {value : List UInt8} {text : Str} (h : toStr value = some text) :
    value.map (fun b => Char.ofNat b.toNat) = text :=
  Option.some.inj (Option.ite_none_right_eq_some.mp h).2

theorem carriesKey_of_bearer {apiKey : Str} {request : Request}
    (h : bearerToken request = some apiKey) : CarriesKey apiKey request := by
  obtain ⟨text, htext, hstrip⟩ := Option.bind_eq_some_iff.mp h
  obtain ⟨value, hvalue, hstr⟩ := Option.bind_eq_some_iff.mp htext
  obtain ⟨⟨name, value'⟩, hfind, rfl⟩ := Option.map_eq_some_iff.mp hvalue
  have hname := List.find?_some hfind
  rw [decide_eq_true_eq] at hname
  subst hname
  exact Or.inl ⟨_, List.mem_of_find?_eq_some hfind, (toStr_eq hstr).trans (stripPrefix_eq hstrip)⟩

theorem carriesKey_of_query {apiKey : Str} {request : Request}
    (h : queryToken request = some apiKey) : CarriesKey apiKey request := by
  obtain ⟨q, hq, hfind⟩ := Option.bind_eq_some_iff.mp h
  obtain ⟨pair, hpair, hstrip⟩ := List.exists_of_findSome?_eq_some hfind
  exact Or.inr ⟨q, hq, stripPrefix_eq hstrip ▸ hpair⟩

theorem eq_of_constantTimeEq {token : Option Str} {apiKey : Str}
    (h : token.map (constantTimeEq · apiKey) = some true) : token = some apiKey := by
  obtain ⟨t, rfl, ht⟩ := Option.map_eq_some_iff.mp h
  rw [constantTimeEq_iff.mp ht]

/-- What lets a request go on when a key is configured. -/
theorem auth_next_cases {apiKey : Str} {request : Request} (hkey : apiKey ≠ [])
    (h : auth apiKey request = .next) :
    isPublicDashboardPath request.path ∨ isLocalObsidianBootstrapRequest request ∨
      CarriesKey apiKey request := by
  simp only [auth, hkey, if_false] at h
  split at h
  · rename_i hopen
    rw [Bool.or_eq_true] at hopen
    exact hopen.imp_right Or.inl
  · split at h
    · rename_i hcredential
      refine Or.inr (Or.inr ?_)
      cases hcredential with
      | inl hheader => exact carriesKey_of_bearer (eq_of_constantTimeEq hheader)
      | inr hquery => exact carriesKey_of_query (eq_of_constantTimeEq hquery)
    · split at h <;> cases h

theorem auth_public {apiKey : Str} {request : Request} (hkey : apiKey ≠ [])
    (h : isPublicDashboardPath request.path) : auth apiKey request = .next := by
  rw [auth, if_neg hkey, if_pos (by rw [h, Bool.true_or])]

end Credentials

section Bootstrap

/-- From a loopback address: a new agent, or a file of an agent. -/
def Bootstrap (route : Route) (request : Request) : Prop :=
  isLoopbackRequest request ∧
    ((route.path = "/api/agents".toList ∧ request.method = .post) ∨
      route.path = "/api/agents/{id}/files".toList ∨
      route.path = "/api/agents/{id}/files/{filename}".toList)

theorem splitOnceSlash_eq {s before after : Str} (h : splitOnceSlash s = some (before, after)) :
    s = before ++ '/' :: after ∧ '/' ∉ before := by
  induction s generalizing before with
  | nil => cases h
  | cons c s ih =>
    rw [splitOnceSlash] at h
    split at h
    · rename_i hc
      cases h
      exact ⟨by rw [hc, List.nil_append], List.not_mem_nil⟩
    · rename_i hc
      obtain ⟨⟨first, rest⟩, hsplit, hp⟩ := Option.map_eq_some_iff.mp h
      cases hp
      obtain ⟨rfl, hfirst⟩ := ih hsplit
      exact ⟨rfl, by simp [Ne.symm hc, hfirst]⟩

theorem bootstrap_request_cases {request : Request}
    (h : isLocalObsidianBootstrapRequest request) (hchanges : request.method.changesState) :
    isLoopbackRequest request ∧
      ((request.method = .post ∧ request.path = "/api/agents".toList) ∨
        ∃ agentId rest, '/' ∉ agentId ∧
          request.path = "/api/agents/".toList ++ (agentId ++ '/' :: ("files/".toList ++ rest))) := by
  rw [isLocalObsidianBootstrapRequest] at h
  split at h
  · cases h
  · rename_i hloop
    refine ⟨by simpa using hloop, ?_⟩
    split at h
    · exact Or.inl ‹_›
    · split at h
      · cases h
      · rename_i suffix hsuffix
        split at h
        · cases h
        · rename_i agentId rest hsplit
          have hget : request.method ≠ .get := by
            intro hmethod
            rw [hmethod] at hchanges
            cases hchanges
          simp only [hget, decide_false, Bool.false_and, Bool.false_or, Bool.and_eq_true,
            decide_eq_true_eq] at h
          obtain ⟨-, rest', rfl⟩ := h
          obtain ⟨rfl, hslash⟩ := splitOnceSlash_eq hsplit
          exact Or.inr ⟨agentId, rest', hslash, stripPrefix_eq hsuffix⟩

end Bootstrap

section Tables

/-- The state-changing routes under the public paths. -/
def exposedRoutes : List (String × Method) :=
  [("/api/agents", .post), ("/api/budget", .put), ("/api/approvals", .post),
    ("/api/cron/jobs", .post), ("/api/cron/jobs/{id}", .delete),
    ("/api/cron/jobs/{id}/enable", .put)]

def Exposed (route : Route) (m : Method) : Prop := (String.ofList route.path, m) ∈ exposedRoutes

def prefixSegments : List (List String) :=
  [["", "api", "uploads"], ["", "api", "budget", "agents"], ["", "api", "cron"]]

def agentFiles : List (Option Str) :=
  [some "".toList, some "api".toList, some "agents".toList, none, some "files".toList]

/-- What the proofs need of the route table, over the characters of its paths. -/
structure Checked (table : List (Str × List Method)) (publics : List (Str × Unit))
    (exposed : List (Str × Method)) : Prop where
  literal : ∀ page ∈ publics, '\x7b' ∉ page.1
  budget : ∀ entry ∈ table, entry.1 = "/api/budget".toList → .put ∈ entry.2
  changing : ∀ entry ∈ table, ∀ m ∈ entry.2, m.changesState →
    (∀ page ∈ publics, page.1.length = entry.1.length ∧ page.1 = entry.1 →
        (entry.1, m) ∈ exposed) ∧
      (∀ ts ∈ prefixSegments,
        compatible (parsePattern entry.1) ((ts.map String.toList).map some) →
          (entry.1, m) ∈ exposed) ∧
      (compatible (parsePattern entry.1) agentFiles →
        entry.1 = "/api/agents/{id}/files/{filename}".toList)

theorem tables_checked : ∃ table publics exposed, Spelled routeTable table ∧
    Spelled (publicPaths.map fun path => (path, ())) publics ∧ Spelled exposedRoutes exposed ∧
      Checked table publics exposed := by
  -- the characters of a literal come from the unifier, before anything is evaluated
  apply Exists.intro
  apply Exists.intro
  apply Exists.intro
  apply And.intro
  · repeat apply spelled_cons
    exact spelled_nil
  apply And.intro
  · repeat apply spelled_cons
    exact spelled_nil
  apply And.intro
  · repeat apply spelled_cons
    exact spelled_nil
  · exact ⟨by decide +kernel, by decide +kernel, by decide +kernel⟩

theorem public_toList {publics : List (Str × Unit)} {path : String}
    (hspelled : Spelled (publicPaths.map fun path => (path, ())) publics)
    (h : path ∈ publicPaths) : (path.toList, ()) ∈ publics :=
  hspelled.mem_toList (List.mem_map.mpr ⟨path, h, rfl⟩)

theorem entries_checked {entry : String × List Method} (h : entry ∈ routeTable) {m : Method}
    (hm : m ∈ entry.2) (hchanges : m.changesState) :
    (entry.1 ∈ publicPaths → (entry.1, m) ∈ exposedRoutes) ∧
      (∀ ts ∈ prefixSegments,
        compatible (parsePattern entry.1.toList) ((ts.map String.toList).map some) →
          (entry.1, m) ∈ exposedRoutes) ∧
      (compatible (parsePattern entry.1.toList) agentFiles →
        entry.1 = "/api/agents/{id}/files/{filename}") := by
  obtain ⟨table, publics, exposed, htable, hpublics, hexposed, hchecked⟩ := tables_checked
  obtain ⟨hpublic, hpre, hfiles⟩ := hchecked.changing _ (htable.mem_toList h) m hm hchanges
  refine ⟨fun hp => hexposed.mem_of_toList (hpublic _ (public_toList hpublics hp) ⟨rfl, rfl⟩),
    fun ts hts hcompatible => hexposed.mem_of_toList (hpre ts hts hcompatible),
    fun hcompatible => String.toList_injective (hfiles hcompatible)⟩

theorem budget_routed {methods : List Method} (h : ("/api/budget", methods) ∈ routeTable) :
    .put ∈ methods := by
  obtain ⟨table, publics, exposed, htable, -, -, hchecked⟩ := tables_checked
  exact hchecked.budget _ (htable.mem_toList h) rfl

/-- The public paths by their places in the route table. -/
theorem publicPaths_eq : publicPaths =
    [0, 5, 6, 7, 8, 9, 12, 80, 99, 100, 102, 90, 91, 78, 133, 83, 33, 51, 93, 137, 138,
      142].filterMap fun i => (routeTable.map Prod.fst)[i]? := rfl

theorem publicPaths_checked {path : String} (h : path ∈ publicPaths) :
    path ∈ routeTable.map Prod.fst ∧ '\x7b' ∉ path.toList := by
  constructor
  · rw [publicPaths_eq] at h
    obtain ⟨i, -, hi⟩ := List.mem_filterMap.mp h
    exact List.mem_of_getElem? hi
  · obtain ⟨table, publics, exposed, -, hpublics, -, hchecked⟩ := tables_checked
    exact hchecked.literal _ (public_toList hpublics h)

theorem publicPrefixes_segments : ∀ pre ∈ publicPrefixes, ∃ ts ∈ prefixSegments,
    pre.toList = (ts.map String.toList).flatMap (· ++ ['/']) ∧
      ∀ t ∈ ts.map String.toList, '/' ∉ t := by
  decide +kernel

theorem exposedRoutes_public : ∀ entry ∈ exposedRoutes, entry.1 ∈ publicPaths ∨
    ["", "api", "cron"].map (fun t => Segment.literal t.toList) <+: parsePattern entry.1.toList ∧
      3 < (parsePattern entry.1.toList).length := by
  decide +kernel

theorem routeFor_entry {path : Str} {route : Route} (h : routeFor path = some route) :
    ∃ entry ∈ routeTable, route = ⟨entry.1.toList, entry.2⟩ ∧
      accepts (parsePattern entry.1.toList) (segments path) := by
  obtain ⟨p, hmem, haccepts⟩ := find_sound h
  simp only [routes, List.map_map, List.mem_map, Function.comp_apply, Prod.mk.injEq] at hmem
  obtain ⟨entry, hentry, rfl, rfl⟩ := hmem
  exact ⟨entry, hentry, rfl, haccepts⟩

theorem routeFor_literal {path : String} (hrouted : path ∈ routeTable.map Prod.fst)
    (hliteral : '\x7b' ∉ path.toList) :
    ∃ methods, (path, methods) ∈ routeTable ∧ routeFor path.toList = some ⟨path.toList, methods⟩ := by
  obtain ⟨entry, hentry, rfl⟩ := List.mem_map.mp hrouted
  have hmem : ((segments entry.1.toList).map Segment.literal, (⟨entry.1.toList, entry.2⟩ : Route)) ∈
      routes.map fun route => (parsePattern route.path, route) := by
    rw [← parsePattern_literals hliteral]
    exact List.mem_map_of_mem (List.mem_map_of_mem hentry)
  obtain ⟨route, hfind, hroute⟩ := find_literals hmem
  simp only [routes, List.map_map, List.mem_map, Function.comp_apply, Prod.mk.injEq] at hroute
  obtain ⟨entry', hentry', hpattern, rfl⟩ := hroute
  have hpath : entry'.1 = entry.1 :=
    String.toList_injective (segments_injective (segments_of_literals hpattern))
  exact ⟨entry'.2, by rw [← hpath]; exact hentry', by rw [routeFor, hfind, hpath]⟩

/-- A path that starts with known segments goes to a route whose pattern has room for
them. -/
theorem routeFor_known {path : Str} {route : Route} {known : List (Option Str)}
    {ts rest : List Str} (h : routeFor path = some route) (hsegs : segments path = ts ++ rest)
    (hknown : List.Forall₂ (fun k s => ∀ t ∈ k, s = t) known ts) :
    ∃ entry ∈ routeTable, route = ⟨entry.1.toList, entry.2⟩ ∧
      compatible (parsePattern entry.1.toList) known := by
  obtain ⟨entry, hentry, hroute, haccepts⟩ := routeFor_entry h
  rw [hsegs] at haccepts
  exact ⟨entry, hentry, hroute, compatible_of_accepts hknown haccepts⟩

theorem forall₂_map_some (ts : List Str) :
    List.Forall₂ (fun k s => ∀ t ∈ k, s = t) (ts.map some) ts := by
  induction ts with
  | nil => exact .nil
  | cons t ts ih => exact .cons (fun u hu => Option.some.inj hu) ih

theorem exposed_of_public {path : Str} {route : Route} {m : Method}
    (h : routeFor path = some route) (hm : m ∈ route.methods) (hchanges : m.changesState)
    (hpublic : isPublicDashboardPath path) : Exposed route m := by
  rw [isPublicDashboardPath, Bool.or_eq_true, List.any_eq_true, List.any_eq_true] at hpublic
  obtain ⟨p, hp, hpath⟩ | ⟨pre, hpre, hpath⟩ := hpublic
  · rw [decide_eq_true_eq] at hpath
    subst hpath
    obtain ⟨methods, hentry, hroute⟩ :=
      routeFor_literal (publicPaths_checked hp).1 (publicPaths_checked hp).2
    rw [h] at hroute
    cases hroute
    rw [Exposed, String.ofList_toList]
    exact (entries_checked hentry hm hchanges).1 hp
  · obtain ⟨rest, rfl⟩ := of_decide_eq_true hpath
    obtain ⟨ts, hts, hpre, hslash⟩ := publicPrefixes_segments pre hpre
    rw [hpre] at h
    obtain ⟨entry, hentry, rfl, hcompatible⟩ :=
      routeFor_known h (segments_flatMap hslash rest) (forall₂_map_some _)
    rw [Exposed, String.ofList_toList]
    exact (entries_checked hentry hm hchanges).2.1 ts hts hcompatible

theorem public_of_exposed {path : Str} {route : Route} {m : Method}
    (h : routeFor path = some route) (hexposed : Exposed route m) :
    isPublicDashboardPath path := by
  obtain ⟨entry, hentry, rfl, haccepts⟩ := routeFor_entry h
  rw [Exposed, String.ofList_toList] at hexposed
  rw [isPublicDashboardPath, Bool.or_eq_true, List.any_eq_true, List.any_eq_true]
  cases exposedRoutes_public _ hexposed with
  | inl hpublic =>
    rw [parsePattern_literals (publicPaths_checked hpublic).2, accepts_literals_iff] at haccepts
    exact Or.inl ⟨_, hpublic, decide_eq_true (segments_injective haccepts)⟩
  | inr hcron =>
    obtain ⟨⟨p, hp⟩, hlength⟩ := hcron
    have hne : p ≠ [] := by
      rintro rfl
      rw [← hp] at hlength
      exact absurd hlength (by decide)
    have hliterals : ["", "api", "cron"].map (fun t => Segment.literal t.toList) =
        (["", "api", "cron"].map String.toList).map .literal := rfl
    rw [← hp, hliterals] at haccepts
    have hpre := prefix_of_accepts _ hne haccepts
    exact Or.inr ⟨"/api/cron/", by decide, decide_eq_true hpre⟩

theorem bootstrap_of_local {request : Request} {route : Route}
    (h : routeFor request.path = some route) (hm : request.method ∈ route.methods)
    (hchanges : request.method.changesState) (hlocal : isLocalObsidianBootstrapRequest request) :
    Bootstrap route request := by
  obtain ⟨hloop, hcases⟩ := bootstrap_request_cases hlocal hchanges
  refine ⟨hloop, ?_⟩
  obtain ⟨hpost, hpath⟩ | ⟨agentId, rest, hslash, hpath⟩ := hcases
  · have hpublic : "/api/agents" ∈ publicPaths := by simp [publicPaths]
    obtain ⟨methods, hentry, hroute⟩ :=
      routeFor_literal (publicPaths_checked hpublic).1 (publicPaths_checked hpublic).2
    rw [hpath, hroute] at h
    cases h
    exact Or.inl ⟨rfl, hpost⟩
  · have hsegs : segments request.path =
        ["".toList, "api".toList, "agents".toList, agentId, "files".toList] ++ segments rest := by
      rw [hpath]
      have hparts : "/api/agents/".toList ++ (agentId ++ '/' :: ("files/".toList ++ rest)) =
          ["".toList, "api".toList, "agents".toList, agentId, "files".toList].flatMap (· ++ ['/']) ++
            rest := by
        simp
      rw [hparts]
      apply segments_flatMap
      simp [hslash]
    have hknown : List.Forall₂ (fun k s => ∀ t ∈ k, s = t) agentFiles
        ["".toList, "api".toList, "agents".toList, agentId, "files".toList] := by
      simp [agentFiles]
    obtain ⟨entry, hentry, rfl, hcompatible⟩ := routeFor_known h hsegs hknown
    have hpath := (entries_checked hentry hm hchanges).2.2 hcompatible
    exact Or.inr (Or.inr (congrArg String.toList hpath))

end Tables

section Guard

/-- A request that changes the state gets past the middleware with the key only, or as a
bootstrap request of the machine itself. -/
def Protected (apiKey : Str) (request : Request) : Prop :=
  ∀ route, routeFor request.path = some route → request.method ∈ route.methods →
    request.method.changesState → auth apiKey request = .next →
      CarriesKey apiKey request ∨ Bootstrap route request

theorem changesState_of_exposed {route : Route} {m : Method} (h : Exposed route m) :
    m.changesState := by
  have hall : ∀ entry ∈ exposedRoutes, entry.2.changesState := by decide
  exact hall _ h

/-- The list of public paths does not look at the method: exactly the routes with both a
public page and a handler that changes the state are open to everyone. -/
theorem protected_iff {apiKey : Str} (hkey : apiKey ≠ []) (request : Request) :
    Protected apiKey request ↔
      ∀ route, routeFor request.path = some route → request.method ∈ route.methods →
        Exposed route request.method → CarriesKey apiKey request ∨ Bootstrap route request := by
  constructor
  · intro h route hroute hm hexposed
    have hnext := auth_public hkey (public_of_exposed hroute hexposed)
    exact h route hroute hm (changesState_of_exposed hexposed) hnext
  · intro h route hroute hm hchanges hnext
    obtain hpublic | hlocal | hcarries := auth_next_cases hkey hnext
    · exact h route hroute hm (exposed_of_public hroute hm hchanges hpublic)
    · exact Or.inr (bootstrap_of_local hroute hm hchanges hlocal)
    · exact Or.inl hcarries

/-- A new budget from the machine at 203.0.113.7, with some credentials. -/
def budgetRequest (headers : List (Str × List UInt8)) : Request :=
  ⟨.put, "/api/budget".toList, none, headers, some (.v4 0xCB007107#32)⟩

def bearerHeader : List (Str × List UInt8) :=
  [("authorization".toList, "Bearer secret".toUTF8.data.toList)]

theorem protected_with_key : Protected "secret".toList (budgetRequest bearerHeader) := by
  apply (protected_iff (by decide) _).mpr
  intro route _ _ _
  exact Or.inl (Or.inl ⟨_, List.mem_cons_self, by decide⟩)

theorem stranger_sets_budget : ¬ Protected "secret".toList (budgetRequest []) := by
  intro h
  have hpublic : "/api/budget" ∈ publicPaths := by simp [publicPaths]
  obtain ⟨methods, hentry, hroute⟩ :=
    routeFor_literal (publicPaths_checked hpublic).1 (publicPaths_checked hpublic).2
  have hnext : auth "secret".toList (budgetRequest []) = .next :=
    auth_public (by decide) (by decide)
  obtain (⟨value, hvalue, -⟩ | ⟨q, hq, -⟩) | ⟨hloop, -⟩ :=
    h _ hroute (budget_routed hentry) rfl hnext
  · cases hvalue
  · cases hq
  · exact absurd hloop (by decide)

end Guard

end Clawreform.Api
