import Clawreform.Lib.Url
import Clawreform.Lib.Json

namespace Clawreform.Runtime.Ssrf

open Clawreform.Lib.Text Clawreform.Lib.Addresses
open Clawreform.Lib.Json (Value)
open Clawreform.Lib.Url (Host Target lower)

section Code

/-- What the resolver answers for a name in lower case; nothing when it fails. -/
abbrev Dns := Str → Option (List Ip)

def isLoopback : Ip → Bool
  | .v4 ip => ip.isLoopback
  | .v6 ip => ip.isLoopback

def isUnspecified : Ip → Bool
  | .v4 ip => ip.isUnspecified
  | .v6 ip => ip.isUnspecified

def isPrivateIp : Ip → Bool
  | .v4 ip => ip.isPrivate || ip.isLinkLocal
  | .v6 ip => ip.isUniqueLocal || ip.isLinkLocal

def isRefusedIp (ip : Ip) : Bool := isLoopback ip || isUnspecified ip || isPrivateIp ip

def defaultPort (url : Str) : Str :=
  if "https".toList <+: url then "443".toList else "80".toList

/-- The text between the first `://` and the next one. -/
def afterScheme (url : Str) : Option Str :=
  (find "://".toList url).map fun i =>
    let rest := url.drop (i + 3)
    match find "://".toList rest with
    | some j => rest.take j
    | none => rest

def withPort (url hostPort : Str) : Str :=
  if ':' ∈ hostPort then hostPort else hostPort ++ ':' :: defaultPort url

/-- A text up to its first closing bracket, and what follows. -/
def bracketed (s : Str) : Option (Str × Str) :=
  if s.head? = some '[' ∧ ']' ∈ s then
    some (s.takeWhile (· ≠ ']') ++ [']'], (s.dropWhile (· ≠ ']')).tail)
  else none

def extractHost (url : Str) : Str :=
  match afterScheme url with
  | none => url
  | some rest =>
    let hostPort := rest.takeWhile (· ≠ '/')
    match bracketed hostPort with
    | some (ipv6Host, ':' :: port) => ipv6Host ++ ':' :: port
    | some (ipv6Host, _) => ipv6Host ++ ':' :: defaultPort url
    | none => withPort url hostPort

def extractHostFromUrl (url : Str) : Str :=
  match afterScheme url with
  | none => url
  | some rest => withPort url (rest.takeWhile (· ≠ '/'))

def beforeColon (host : Str) : Str := host.takeWhile (· ≠ ':')

/-- The address that stands for itself where a host and a port are resolved; an IPv6
address in brackets may carry the number of a zone. -/
def literal (hostname : Str) : Option Ip :=
  match bracketed hostname with
  | some (ipv6Host, []) =>
    let inner := ipv6Host.tail.dropLast
    match inner.dropWhile (· ≠ '%') with
    | [] => (Ipv6.parse inner).map .v6
    | _ :: zone =>
      if zone ≠ [] ∧ zone.all Char.isDigit ∧ decimal zone < 2 ^ 32 then
        (Ipv6.parse (inner.takeWhile (· ≠ '%'))).map .v6
      else none
  | _ => (Ipv4.parse hostname).map .v4

def toSocketAddrs (dns : Dns) (hostname : Str) : Option (List Ip) :=
  match literal hostname with
  | some ip => some [ip]
  | none => dns (lower hostname)

def isHttp (url : Str) : Bool := "http://".toList <+: url ∨ "https://".toList <+: url

/-- The check that stands in both places, each with its own list and its own way to cut the
name out. -/
def checkHostname (dns : Dns) (blocked : List String) (hostname url : Str) : Except Str Unit :=
  if !isHttp url then .error "Only http:// and https:// URLs are allowed".toList
  else if hostname ∈ blocked.map String.toList then
    .error ("SSRF blocked: ".toList ++ hostname ++ " is a restricted hostname".toList)
  else
    match ((toSocketAddrs dns hostname).getD []).find? isRefusedIp with
    | some ip =>
      .error ("SSRF blocked: ".toList ++ hostname ++ " resolves to private IP ".toList ++ ip.text)
    | none => .ok ()

def blocked : List String :=
  ["localhost", "ip6-localhost", "metadata.google.internal", "metadata.aws.internal",
    "instance-data", "169.254.169.254", "100.100.100.200", "192.0.0.192", "0.0.0.0", "::1",
    "[::1]"]

def checkedName (url : Str) : Str :=
  let host := extractHost url
  if host.head? = some '[' then ((bracketed host).map Prod.fst).getD host else beforeColon host

def checkSsrf (dns : Dns) (url : Str) : Except Str Unit :=
  checkHostname dns blocked (checkedName url) url

def blockedHostnames : List String :=
  ["localhost", "metadata.google.internal", "metadata.aws.internal", "instance-data",
    "169.254.169.254"]

def targetName (url : Str) : Str := beforeColon (extractHostFromUrl url)

def isSsrfTarget (dns : Dns) (url : Str) : Except Value Unit :=
  (checkHostname dns blockedHostnames (targetName url) url).mapError fun e =>
    .obj [("error", .string e)]

end Code

section Purpose

def isInternalIpv4 (ip : Ipv4) : Bool :=
  ip.isLoopback || ip.isUnspecified || ip.isLinkLocal || ip.isPrivate

/-- The addresses no outside URL may lead to, in either notation of an IPv4 address. -/
def isInternal : Ip → Bool
  | .v4 ip => isInternalIpv4 ip
  | .v6 ip => ip.isLoopback || ip.isUnspecified || ip.isLinkLocal || ip.isUniqueLocal ||
      ip.toIpv4Mapped.any isInternalIpv4

/-- The addresses the client may connect to. -/
def addresses (dns : Dns) : Host → List Ip
  | .domain name => (dns (lower name)).getD []
  | .ipv4 ip => [.v4 ip]
  | .ipv6 ip => [.v6 ip]

variable (toAscii : Str → Option Str) (dns : Dns) (url : Str)

def Harmless (host : Host) : Prop :=
  host.text ∉ blocked.map String.toList ∧ ∀ ip ∈ addresses dns host, isInternal ip = false

def Protects : Prop :=
  (checkSsrf dns url = .ok () ∨ isSsrfTarget dns url = .ok () →
    ∀ target, Lib.Url.parse toAscii url = some target → Harmless dns target.host) ∧
  (checkSsrf dns url = .ok () ↔ isSsrfTarget dns url = .ok ())

end Purpose

section Reading

/-- What a check makes of the text of a URL before it asks the resolver. -/
inductive Reading where
  | refused
  | passed
  | asks (name : Str)

def reading (names : List String) (hostname url : Str) : Reading :=
  if !isHttp url ∨ hostname ∈ names.map String.toList then .refused
  else
    match literal hostname with
    | some ip => if isRefusedIp ip then .refused else .passed
    | none => .asks (lower hostname)

def ssrfReading (url : Str) : Reading := reading blocked (checkedName url) url

def targetReading (url : Str) : Reading := reading blockedHostnames (targetName url) url

def Reading.Accepts (dns : Dns) : Reading → Prop
  | .refused => False
  | .passed => True
  | .asks name => ∀ ip ∈ (dns name).getD [], isRefusedIp ip = false

/-- A reading that answers for the host: it refuses the URL, or the host is no blocked name and
either an address that is not internal or the very name the resolver is asked for. -/
def Reading.Guards (r : Reading) (host : Host) : Prop :=
  r = .refused ∨ host.text ∉ blocked.map String.toList ∧
    match host with
    | .domain name => r = .asks (lower name)
    | .ipv4 ip => isInternal (.v4 ip) = false
    | .ipv6 ip => isInternal (.v6 ip) = false

def Fits (toAscii : Str → Option Str) (url : Str) : Prop :=
  ssrfReading url = targetReading url ∧
    ∀ target, Lib.Url.parse toAscii url = some target → (ssrfReading url).Guards target.host

/-- No answer of the resolver is an IPv4 address in the notation of IPv6. -/
def Unmapped (dns : Dns) : Prop :=
  ∀ name ips ip, dns name = some ips → .v6 ip ∈ ips → ip.toIpv4Mapped = none

end Reading

section Agreement

variable {toAscii : Str → Option Str} {dns : Dns} {url hostname name : Str} {names : List String}
  {r r' : Reading} {host : Host}

theorem checkHostname_ok_iff :
    checkHostname dns names hostname url = .ok () ↔ (reading names hostname url).Accepts dns := by
  rw [checkHostname, reading]
  by_cases hhttp : isHttp url
  · by_cases hname : hostname ∈ names.map String.toList
    · simp [hhttp, hname, Reading.Accepts]
    · simp only [hhttp, Bool.not_true, Bool.false_eq_true, ↓reduceIte, hname, or_self]
      rw [toSocketAddrs]
      cases literal hostname with
      | none =>
        cases hfind : ((dns (lower hostname)).getD []).find? isRefusedIp with
        | none =>
          simpa [Reading.Accepts] using List.find?_eq_none.mp hfind
        | some ip =>
          simp only [reduceCtorEq, Reading.Accepts, false_iff, not_forall]
          exact ⟨ip, List.mem_of_find?_eq_some hfind, by simpa using List.find?_some hfind⟩
      | some ip => by_cases hip : isRefusedIp ip <;> simp [hip, Reading.Accepts]
  · simp [hhttp, Reading.Accepts]

theorem checkSsrf_ok_iff : checkSsrf dns url = .ok () ↔ (ssrfReading url).Accepts dns :=
  checkHostname_ok_iff

theorem isSsrfTarget_ok_iff : isSsrfTarget dns url = .ok () ↔ (targetReading url).Accepts dns := by
  rw [targetReading, ← checkHostname_ok_iff, isSsrfTarget]
  cases checkHostname dns blockedHostnames (targetName url) url <;> simp [Except.mapError]

theorem isInternal_eq {ip : Ip} (h : ∀ v6, ip = .v6 v6 → v6.toIpv4Mapped = none) :
    isInternal ip = isRefusedIp ip := by
  cases ip with
  | v4 ip =>
    simp only [isInternal, isInternalIpv4, isRefusedIp, isLoopback, isUnspecified, isPrivateIp]
    grind
  | v6 ip =>
    simp only [isInternal, h ip rfl, isRefusedIp, isLoopback, isUnspecified, isPrivateIp]
    grind

/-- The resolver that fails on every name. -/
def silent : Dns := fun _ => none

/-- The resolver that knows one name, and that as the host itself. -/
def onlyLocal (name : Str) : Dns := fun n => if n = name then some [.v4 ⟨127, 0, 0, 1⟩] else none

theorem unmapped_silent : Unmapped silent := nofun

theorem unmapped_onlyLocal (name : Str) : Unmapped (onlyLocal name) := by
  intro n ips ip hdns hip
  rw [onlyLocal] at hdns
  split at hdns
  · cases hdns
    simp at hip
  · cases hdns

theorem accepts_silent : r.Accepts silent ↔ r ≠ .refused := by
  cases r <;> simp [Reading.Accepts, silent]

theorem accepts_onlyLocal : r.Accepts (onlyLocal name) ↔ r ≠ .refused ∧ r ≠ .asks name := by
  cases r with
  | refused => simp [Reading.Accepts]
  | passed => simp [Reading.Accepts]
  | asks n =>
    have hlocal : isRefusedIp (.v4 ⟨127, 0, 0, 1⟩) = true := by decide
    by_cases hn : n = name <;> simp [Reading.Accepts, onlyLocal, hn, hlocal]

/-- Two readings that accept the same URLs whatever the resolver answers are one. -/
theorem reading_ext (h : ∀ dns, Unmapped dns → (r.Accepts dns ↔ r'.Accepts dns)) : r = r' := by
  have hsilent := h silent unmapped_silent
  rw [accepts_silent, accepts_silent, not_iff_not] at hsilent
  have hlocal : ∀ name, r = .asks name ↔ r' = .asks name := by
    intro name
    have hname := h (onlyLocal name) (unmapped_onlyLocal name)
    rw [accepts_onlyLocal, accepts_onlyLocal] at hname
    by_cases hr : r = .refused
    · simp [hr, hsilent.mp hr]
    · have hr' := mt hsilent.mpr hr
      simpa [hr, hr', not_iff_not] using hname
  cases r with
  | refused => exact (hsilent.mp rfl).symm
  | asks name => exact ((hlocal name).mp rfl).symm
  | passed =>
    cases r' with
    | refused => exact hsilent.mpr rfl
    | asks name => exact (hlocal name).mpr rfl
    | passed => rfl

theorem guards_of_harmless (h : ∀ dns, Unmapped dns → r.Accepts dns → Harmless dns host) :
    r.Guards host := by
  by_cases hr : r = .refused
  · exact Or.inl hr
  · have hharmless := h silent unmapped_silent (accepts_silent.mpr hr)
    refine Or.inr ⟨hharmless.1, ?_⟩
    cases host with
    | domain name =>
      by_contra hname
      have hlocal := h (onlyLocal (lower name)) (unmapped_onlyLocal _)
        (accepts_onlyLocal.mpr ⟨hr, hname⟩)
      have hip := hlocal.2 (.v4 ⟨127, 0, 0, 1⟩) (by simp [addresses, onlyLocal])
      exact absurd hip (by decide)
    | ipv4 ip => exact hharmless.2 _ (List.mem_singleton_self _)
    | ipv6 ip => exact hharmless.2 _ (List.mem_singleton_self _)

theorem harmless_of_guards (hdns : Unmapped dns) (h : r.Guards host) (haccepts : r.Accepts dns) :
    Harmless dns host := by
  obtain rfl | ⟨hname, hhost⟩ := h
  · exact haccepts.elim
  · refine ⟨hname, ?_⟩
    cases host with
    | domain name =>
      subst hhost
      intro ip hip
      cases hips : dns (lower name) with
      | none => simp [addresses, hips] at hip
      | some ips =>
        have hmem : ip ∈ ips := by simpa [addresses, hips] using hip
        rw [isInternal_eq (fun v6 hv6 => hdns _ ips v6 hips (hv6 ▸ hmem))]
        exact haccepts ip (by simpa [hips] using hmem)
    | ipv4 ip => simpa [addresses] using hhost
    | ipv6 ip => simpa [addresses] using hhost

theorem fits_iff : (∀ dns, Unmapped dns → Protects toAscii dns url) ↔ Fits toAscii url := by
  constructor
  · intro h
    have hsame : ssrfReading url = targetReading url := by
      apply reading_ext
      intro dns hdns
      rw [← checkSsrf_ok_iff, ← isSsrfTarget_ok_iff]
      exact (h dns hdns).2
    refine ⟨hsame, fun target htarget => guards_of_harmless ?_⟩
    intro dns hdns haccepts
    exact (h dns hdns).1 (Or.inl (checkSsrf_ok_iff.mpr haccepts)) target htarget
  · rintro ⟨hsame, hguards⟩ dns hdns
    rw [Protects, checkSsrf_ok_iff, isSsrfTarget_ok_iff, ← hsame]
    refine ⟨fun haccepts target htarget => ?_, Iff.rfl⟩
    exact harmless_of_guards hdns (hguards target htarget) (or_self_iff.mp haccepts)

/-- The local host in the notation of IPv6. -/
def mappedLocal : Ipv6 := ⟨[0, 0, 0, 0, 0, 0xffff, 0x7f00, 1], rfl⟩

theorem not_harmless_mapped : ¬ Harmless (fun _ => some [.v6 mappedLocal]) (.domain name) := by
  intro h
  exact absurd (h.2 _ (List.mem_singleton_self _)) (by decide)

theorem accepts_mapped (h : r ≠ .refused) : r.Accepts fun _ => some [.v6 mappedLocal] := by
  cases r with
  | refused => exact absurd rfl h
  | passed => trivial
  | asks name =>
    intro ip hip
    obtain rfl := List.mem_singleton.mp hip
    decide

/-- With answers in the notation of IPv4 or real IPv6 the checks protect the URLs that both of
them read as the client does. An IPv4 address in the notation of IPv6 gets by them, so that
whatever the resolver answers they protect no domain but those they refuse. -/
theorem protects_iff (toAscii : Str → Option Str) (url : Str) :
    ((∀ dns, Unmapped dns → Protects toAscii dns url) ↔ Fits toAscii url) ∧
    ((∀ dns, Protects toAscii dns url) ↔ Fits toAscii url ∧
      ∀ target name, Lib.Url.parse toAscii url = some target → target.host = .domain name →
        ssrfReading url = .refused) := by
  refine ⟨fits_iff, fun h => ⟨fits_iff.mp fun dns _ => h dns, ?_⟩, ?_⟩
  · intro target name htarget hdomain
    by_contra hr
    have hharmless := (h _).1 (Or.inl (checkSsrf_ok_iff.mpr (accepts_mapped hr))) target htarget
    rw [hdomain] at hharmless
    exact not_harmless_mapped hharmless
  · rintro ⟨⟨hsame, hguards⟩, hdomain⟩ dns
    rw [Protects, checkSsrf_ok_iff, isSsrfTarget_ok_iff, ← hsame]
    refine ⟨fun haccepts target htarget => ?_, Iff.rfl⟩
    have haccepted := or_self_iff.mp haccepts
    obtain hr | ⟨hname, hhost⟩ := hguards target htarget
    · rw [hr] at haccepted
      exact haccepted.elim
    · cases hcase : target.host with
      | domain name =>
        rw [hdomain target name htarget hcase] at haccepted
        exact haccepted.elim
      | ipv4 ip =>
        rw [hcase] at hname hhost
        exact ⟨hname, by simpa [addresses] using hhost⟩
      | ipv6 ip =>
        rw [hcase] at hname hhost
        exact ⟨hname, by simpa [addresses] using hhost⟩

/-- The user name in front of the host is taken for a part of it. -/
theorem user_name_hides_local : ¬ ∀ toAscii dns url, Protects toAscii dns url := by
  intro h
  have hlocal := (h (fun s => some (lower s)) silent "http://a@127.0.0.1/".toList).1
    (Or.inl (by decide +kernel)) ⟨.ipv4 ⟨127, 0, 0, 1⟩, 80⟩ (by decide +kernel)
  exact absurd (hlocal.2 _ (List.mem_singleton_self _)) (by decide +kernel)

end Agreement

end Clawreform.Runtime.Ssrf
