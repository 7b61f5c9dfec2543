import Clawreform.Lib.Text

namespace Clawreform.Lib.Addresses

open Clawreform.Lib.Text

structure Ipv4 where
  a : UInt8
  b : UInt8
  c : UInt8
  d : UInt8
  deriving DecidableEq

structure Ipv6 where
  segments : List UInt16
  eight : segments.length = 8
  deriving DecidableEq

inductive Ip where
  | v4 (ip : Ipv4)
  | v6 (ip : Ipv6)
  deriving DecidableEq

section Ranges

def Ipv4.isLoopback (ip : Ipv4) : Bool := ip.a = 127

def Ipv4.isUnspecified (ip : Ipv4) : Bool := ip = ⟨0, 0, 0, 0⟩

def Ipv4.isLinkLocal (ip : Ipv4) : Bool := ip.a = 169 ∧ ip.b = 254

def Ipv4.isPrivate (ip : Ipv4) : Bool :=
  ip.a = 10 ∨ ip.a = 172 ∧ 16 ≤ ip.b ∧ ip.b ≤ 31 ∨ ip.a = 192 ∧ ip.b = 168

def Ipv6.isLoopback (ip : Ipv6) : Bool := ip.segments = [0, 0, 0, 0, 0, 0, 0, 1]

def Ipv6.isUnspecified (ip : Ipv6) : Bool := ip.segments = [0, 0, 0, 0, 0, 0, 0, 0]

def Ipv6.first (ip : Ipv6) : UInt16 := ip.segments.headD 0

def Ipv6.isLinkLocal (ip : Ipv6) : Bool := ip.first &&& 0xffc0 = 0xfe80

def Ipv6.isUniqueLocal (ip : Ipv6) : Bool := ip.first &&& 0xfe00 = 0xfc00

/-- The IPv4 address that an address `::ffff:a.b.c.d` stands for. -/
def Ipv6.toIpv4Mapped (ip : Ipv6) : Option Ipv4 :=
  match ip.segments with
  | [0, 0, 0, 0, 0, 0xffff, ab, cd] =>
    some ⟨(ab >>> 8).toUInt8, ab.toUInt8, (cd >>> 8).toUInt8, cd.toUInt8⟩
  | _ => none

end Ranges

section Texts

def Ipv4.text (ip : Ipv4) : Str :=
  showNat ip.a.toNat ++ '.' :: (showNat ip.b.toNat ++ '.' :: (showNat ip.c.toNat ++
    '.' :: showNat ip.d.toNat))

def groupsText (segments : List UInt16) : Str :=
  [':'].intercalate (segments.map fun s => Nat.toDigits 16 s.toNat)

/-- Where the longest run of zeros begins, the first of several, and how long it is. -/
def longestZeros (segments : List UInt16) : Nat × Nat :=
  (List.range segments.length).foldl (fun best i =>
    let n := ((segments.drop i).takeWhile (· = 0)).length
    if best.2 < n then (i, n) else best) (0, 0)

/-- The longest run of at least two zeros is left out. -/
def Ipv6.compressed (ip : Ipv6) : Str :=
  let zeros := longestZeros ip.segments
  if zeros.2 ≤ 1 then groupsText ip.segments
  else groupsText (ip.segments.take zeros.1) ++ "::".toList ++
    groupsText (ip.segments.drop (zeros.1 + zeros.2))

def Ipv6.text (ip : Ipv6) : Str :=
  match ip.toIpv4Mapped with
  | some v4 => "::ffff:".toList ++ v4.text
  | none => ip.compressed

def Ip.text : Ip → Str
  | .v4 ip => ip.text
  | .v6 ip => ip.text

end Texts

section Parsing

def decimal (s : Str) : Nat := Nat.ofDigitChars 10 s 0

def hexValue (c : Char) : Option Nat :=
  if '0' ≤ c ∧ c ≤ '9' then some (c.toNat - '0'.toNat)
  else if 'a' ≤ c ∧ c ≤ 'f' then some (c.toNat - 'a'.toNat + 10)
  else if 'A' ≤ c ∧ c ≤ 'F' then some (c.toNat - 'A'.toNat + 10)
  else none

def hexadecimal (s : Str) : Nat := s.foldl (fun n c => n * 16 + (hexValue c).getD 0) 0

/-- An octet has at most three digits and no zero in front. -/
def octet (s : Str) : Option UInt8 :=
  if s ≠ [] ∧ s.length ≤ 3 ∧ s.all Char.isDigit ∧ (s.head? = some '0' → s.length = 1) ∧
      decimal s < 256 then
    some (UInt8.ofNat (decimal s))
  else none

def Ipv4.parse (s : Str) : Option Ipv4 :=
  match (s.splitOn '.').mapM octet with
  | some [a, b, c, d] => some ⟨a, b, c, d⟩
  | _ => none

def Ipv4.groups (ip : Ipv4) : List UInt16 :=
  [ip.a.toUInt16 * 256 + ip.b.toUInt16, ip.c.toUInt16 * 256 + ip.d.toUInt16]

/-- Read the groups of an address: those there are, and how many of them there were at the
two colons, which count as one group. -/
def readGroups : Nat → List UInt16 → Option Nat → Str → Option (List UInt16 × Option Nat)
  | 0, _, _, _ => none
  | _ + 1, groups, mark, [] => some (groups, mark)
  | fuel + 1, groups, mark, c :: s =>
    if groups.length = 8 then none
    else if c = ':' then
      if mark.isSome then none else readGroups fuel (groups ++ [0]) (some (groups.length + 1)) s
    else
      let digits := ((c :: s).takeWhile fun c => (hexValue c).isSome).take 4
      let group := UInt16.ofNat (hexadecimal digits)
      match (c :: s).drop digits.length with
      | [] => some (groups ++ [group], mark)
      | '.' :: _ =>
        if digits = [] ∨ 6 < groups.length then none
        else (Ipv4.parse (c :: s)).map fun ip => (groups ++ ip.groups, mark)
      | ':' :: rest =>
        if rest = [] then none else readGroups fuel (groups ++ [group]) mark rest
      | _ => none

def ofGroups (groups : List UInt16) (mark : Option Nat) : Option Ipv6 :=
  let segments :=
    match mark with
    | none => groups
    | some n => groups.take n ++ List.replicate (8 - groups.length) 0 ++ groups.drop n
  if h : segments.length = 8 then some ⟨segments, h⟩ else none

/-- Every turn takes at least one character, so the length of the text is fuel enough. -/
def Ipv6.parse (s : Str) : Option Ipv6 :=
  let read :=
    if "::".toList <+: s then readGroups s.length [0] (some 1) (s.drop 2)
    else if s.head? = some ':' then none
    else readGroups (s.length + 1) [] none s
  read.bind fun r => ofGroups r.1 r.2

example : (Ipv6.parse "1::f:127.0.0.1".toList).map Ipv6.compressed =
    some "1::f:7f00:1".toList := by decide

end Parsing

end Clawreform.Lib.Addresses
