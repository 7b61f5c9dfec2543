import Clawreform.Lib.Addresses
import Clawreform.Lib.Utf8

namespace Clawreform.Lib.Url

open Clawreform.Lib.Text Clawreform.Lib.Addresses

inductive Host where
  | domain (name : Str)
  | ipv4 (ip : Ipv4)
  | ipv6 (ip : Ipv6)
  deriving DecidableEq

structure Target where
  host : Host
  port : UInt16
  deriving DecidableEq

def Host.text : Host → Str
  | .domain name => name
  | .ipv4 ip => ip.text
  | .ipv6 ip => '[' :: (ip.compressed ++ [']'])

def Target.text (target : Target) : Str := target.host.text ++ ':' :: showNat target.port.toNat

def lower (s : Str) : Str := s.map Char.toLower

section Numbers

def isOctal (c : Char) : Bool := '0' ≤ c ∧ c ≤ '7'

def octal (s : Str) : Nat := Nat.ofDigitChars 8 s 0

/-- A part of an IPv4 address in the notation of C: hexadecimal, octal or decimal. -/
def ipv4Number : Str → Option Nat
  | [] => none
  | '0' :: 'x' :: s => if s.all (fun c => (hexValue c).isSome) then some (hexadecimal s) else none
  | '0' :: 'X' :: s => if s.all (fun c => (hexValue c).isSome) then some (hexadecimal s) else none
  | '0' :: c :: s => if (c :: s).all isOctal then some (octal (c :: s)) else none
  | s => if s.all Char.isDigit then some (decimal s) else none

/-- The parts between the dots, without the empty one after a last dot. -/
def parts (s : Str) : List Str :=
  let ps := s.splitOn '.'
  if ps.getLast? = some [] ∧ 1 < ps.length then ps.dropLast else ps

def endsInNumber (s : Str) : Bool :=
  match (parts s).getLast? with
  | none => false
  | some last => (last ≠ [] ∧ last.all Char.isDigit) ∨ (ipv4Number last).isSome

/-- The last number fills the bytes the others leave. -/
def parseIpv4 (s : Str) : Option Ipv4 :=
  match (parts s).mapM ipv4Number with
  | none => none
  | some ns =>
    let last := ns.getLastD 0
    let front := ns.dropLast
    if 4 < ns.length ∨ front.any (255 < ·) ∨ 256 ^ (5 - ns.length) ≤ last then none
    else
      let n := last + (front.zipIdx.map fun p => p.1 * 256 ^ (3 - p.2)).sum
      some ⟨UInt8.ofNat (n / 256 ^ 3), UInt8.ofNat (n / 256 ^ 2), UInt8.ofNat (n / 256),
        UInt8.ofNat n⟩

end Numbers

section Hosts

def percentDecode : List UInt8 → List UInt8
  | b :: x :: y :: rest =>
    match hexValue (Char.ofNat x.toNat), hexValue (Char.ofNat y.toNat) with
    | some h, some l =>
      if b = 37 then UInt8.ofNat (h * 16 + l) :: percentDecode rest
      else b :: percentDecode (x :: y :: rest)
    | _, _ => b :: percentDecode (x :: y :: rest)
  | bytes => bytes

def isForbidden (c : Char) : Bool :=
  c.toNat ≤ 0x20 || c.toNat = 0x7F || "#/:<>?@[\\]^|%".toList.contains c

/-- `toAscii` is the mapping of internationalized domain names, which goes by tables. -/
def parseHost (toAscii : Str → Option Str) (s : Str) : Option Host :=
  if s.head? = some '[' then
    if s.getLast? = some ']' then (Ipv6.parse s.tail.dropLast).map .ipv6 else none
  else
    match toAscii (Utf8.fromUtf8Lossy (percentDecode (Utf8.encode s))) with
    | none => none
    | some domain =>
      if domain = [] ∨ domain.any isForbidden then none
      else if endsInNumber domain then (parseIpv4 domain).map .ipv4
      else some (.domain domain)

end Hosts

section Parsing

/-- Blanks and control characters around a URL are left out, tabs and line breaks everywhere. -/
def cleaned (input : Str) : Str :=
  let blank : Char → Bool := fun c => c.toNat ≤ 0x20
  ((input.dropWhile blank).reverse.dropWhile blank).reverse.filter
    fun c => c ≠ '\t' ∧ c ≠ '\n' ∧ c ≠ '\r'

def isSlash (c : Char) : Bool := c = '/' || c = '\\'

/-- What stands between the slashes after the scheme and the path, query or fragment. -/
def authority (afterColon : Str) : Str :=
  (afterColon.dropWhile isSlash).takeWhile fun c => !(isSlash c || c = '?' || c = '#')

/-- Cut at the first colon that does not stand in brackets. -/
def cutPort : Bool → Str → Str × Option Str
  | _, [] => ([], none)
  | bracketed, c :: s =>
    if c = ':' ∧ ¬ bracketed then ([], some s)
    else
      let r := cutPort (c = '[' || (bracketed && c ≠ ']')) s
      (c :: r.1, r.2)

def parsePort (default : UInt16) : Option Str → Option UInt16
  | none => some default
  | some [] => some default
  | some s => if s.all Char.isDigit ∧ decimal s < 65536 then some (UInt16.ofNat (decimal s)) else none

def parseAuthority (toAscii : Str → Option Str) (default : UInt16) (s : Str) : Option Target :=
  let hostPort := cutPort false (afterLast '@' s)
  if hostPort.1 = [] then none
  else
    match parseHost toAscii hostPort.1, parsePort default hostPort.2 with
    | some host, some port => some ⟨host, port⟩
    | _, _ => none

/-- Where a URL with the scheme http or https leads. -/
def parse (toAscii : Str → Option Str) (input : Str) : Option Target :=
  let url := cleaned input
  let scheme := lower (url.takeWhile (· ≠ ':'))
  match url.dropWhile (· ≠ ':') with
  | [] => none
  | _ :: afterColon =>
    if scheme = "http".toList then parseAuthority toAscii 80 (authority afterColon)
    else if scheme = "https".toList then parseAuthority toAscii 443 (authority afterColon)
    else none

example : (parse (fun s => some (lower s)) " HTTP:\\\\a:b@0x7f.1\\@example.com/".toList).map
    Target.text = some "127.0.0.1:80".toList := by decide

end Parsing

end Clawreform.Lib.Url
