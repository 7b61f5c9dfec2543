import Clawreform.Lib.Text

namespace Clawreform.Lib.Base64

open Clawreform.Lib.Text

section Digits

def alphabet : Str :=
  "ABCDEFGHIJKLMNOPQRSTUVWXYZabcdefghijklmnopqrstuvwxyz0123456789+/".toList

def digit (n : Nat) : Char := alphabet.getD n '='

def value (c : Char) : Option Nat := alphabet.findIdx? (· = c)

theorem alphabet_codes : alphabet.map Char.toNat =
    List.range' 65 26 ++ List.range' 97 26 ++ List.range' 48 10 ++ [43, 47] := by
  delta alphabet
  rw [String.toList_ofList]
  decide +kernel

theorem length_alphabet : alphabet.length = 64 := by
  simpa using congrArg List.length alphabet_codes

theorem alphabet_distinct : alphabet.Pairwise (·.toNat ≠ ·.toNat) := by
  apply List.pairwise_map.mp
  rw [alphabet_codes]
  simp only [List.pairwise_append, List.mem_append, List.mem_range'_1]
  refine ⟨⟨⟨List.nodup_range', List.nodup_range', by omega⟩, List.nodup_range', by omega⟩,
    by decide, fun a ha b hb => ?_⟩
  obtain rfl | rfl : b = 43 ∨ b = 47 := by simpa using hb
  · omega
  · omega

/-- No digit is white space or the padding. -/
theorem alphabet_plain : alphabet.all fun c => c != '=' && !isWhitespace c := by
  delta alphabet
  rw [String.toList_ofList]
  decide +kernel

theorem digit_eq_getElem {n : Nat} (h : n < alphabet.length) : digit n = alphabet[n] := by
  rw [digit, List.getD_eq_getElem?_getD, List.getElem?_eq_getElem h, Option.getD_some]

@[simp] theorem value_digit {n : Nat} (h : n < 64) : value (digit n) = some n := by
  have hlt : n < alphabet.length := length_alphabet.symm ▸ h
  rw [value, digit_eq_getElem hlt, List.findIdx?_eq_some_iff_getElem]
  refine ⟨hlt, decide_eq_true rfl, fun m hm heq => ?_⟩
  exact List.pairwise_iff_getElem.mp alphabet_distinct m n (hm.trans hlt) hlt hm
    (congrArg Char.toNat (of_decide_eq_true heq))

theorem digit_plain {n : Nat} (h : n < 64) : digit n ≠ '=' ∧ isWhitespace (digit n) = false := by
  have hlt : n < alphabet.length := length_alphabet.symm ▸ h
  rw [digit_eq_getElem hlt]
  simpa using List.all_eq_true.mp alphabet_plain _ (List.getElem_mem hlt)

theorem digit_ne_pad {n : Nat} (h : n < 64) : digit n ≠ '=' := (digit_plain h).1

theorem digit_not_whitespace (n : Nat) : isWhitespace (digit n) = false := by
  by_cases h : n < 64
  · exact (digit_plain h).2
  · have hlen := length_alphabet
    have hnone : alphabet[n]? = none := List.getElem?_eq_none (by omega)
    rw [digit, List.getD_eq_getElem?_getD, hnone]
    decide

end Digits

section Groups

/-- Four digits of six bits each. -/
def quad (n : Nat) : Str :=
  [digit (n / 2 ^ 18), digit (n / 2 ^ 12 % 64), digit (n / 2 ^ 6 % 64), digit (n % 64)]

def bytesOf (n : Nat) : List UInt8 :=
  [UInt8.ofNat (n / 2 ^ 16), UInt8.ofNat (n / 2 ^ 8), UInt8.ofNat n]

/-- The standard encoding, with padding. -/
@[grind =] def encode : List UInt8 → Str
  | [] => []
  | [a] => [digit (a.toNat / 4), digit (a.toNat % 4 * 16), '=', '=']
  | [a, b] => [digit (a.toNat / 4), digit (a.toNat % 4 * 16 + b.toNat / 16),
      digit (b.toNat % 16 * 4), '=']
  | a :: b :: c :: rest =>
    quad (a.toNat * 2 ^ 16 + b.toNat * 2 ^ 8 + c.toNat) ++ encode rest

def decodeQuad (w x y z : Char) : Option (List UInt8) := do
  let w ← value w
  let x ← value x
  let y ← value y
  let z ← value z
  some (bytesOf (w * 2 ^ 18 + x * 2 ^ 12 + y * 2 ^ 6 + z))

/-- The last group, in which the bits under the padding are zero. -/
def decodeLast (w x y z : Char) : Option (List UInt8) :=
  if z ≠ '=' then decodeQuad w x y z
  else if y ≠ '=' then do
    let w ← value w
    let x ← value x
    let y ← value y
    if y % 4 = 0 then some [UInt8.ofNat (w * 4 + x / 16), UInt8.ofNat (x * 16 + y / 4)] else none
  else do
    let w ← value w
    let x ← value x
    if x % 16 = 0 then some [UInt8.ofNat (w * 4 + x / 16)] else none

def decode : Str → Option (List UInt8)
  | [] => some []
  | [w, x, y, z] => decodeLast w x y z
  | w :: x :: y :: z :: rest => do
    let group ← decodeQuad w x y z
    let bytes ← decode rest
    some (group ++ bytes)
  | _ => none

theorem ofNat_eq {n : Nat} {b : UInt8} (h : n % 2 ^ 8 = b.toNat) : UInt8.ofNat n = b := by
  apply UInt8.toNat_inj.mp
  rw [UInt8.toNat_ofNat', h]

theorem bytesOf_sum (a b c : UInt8) :
    bytesOf (a.toNat * 2 ^ 16 + b.toNat * 2 ^ 8 + c.toNat) = [a, b, c] := by
  have ha := a.toNat_lt
  have hb := b.toNat_lt
  have hc := c.toNat_lt
  rw [bytesOf, ofNat_eq (b := a) (by omega), ofNat_eq (b := b) (by omega),
    ofNat_eq (b := c) (by omega)]

theorem decodeQuad_quad {n : Nat} (h : n < 2 ^ 24) : ∃ w x y z, quad n = [w, x, y, z] ∧
    z ≠ '=' ∧ decodeQuad w x y z = some (bytesOf n) := by
  refine ⟨_, _, _, _, rfl, digit_ne_pad (by omega), ?_⟩
  have hsum : n / 2 ^ 18 * 2 ^ 18 + n / 2 ^ 12 % 64 * 2 ^ 12 + n / 2 ^ 6 % 64 * 2 ^ 6 + n % 64 =
      n := by omega
  simp (disch := omega) only [decodeQuad, value_digit, Option.bind_eq_bind, Option.bind_some, hsum]

theorem decode_group {w x y z : Char} {group bytes : List UInt8} {rest : Str}
    (hgroup : decodeQuad w x y z = some group) (hz : z ≠ '=') (hrest : decode rest = some bytes) :
    decode ([w, x, y, z] ++ rest) = some (group ++ bytes) := by
  cases rest with
  | nil =>
    obtain rfl : [] = bytes := Option.some.inj hrest
    rw [List.append_nil, List.append_nil, decode, decodeLast, if_pos hz, hgroup]
  | cons c rest =>
    rw [List.cons_append, List.cons_append, List.cons_append, List.singleton_append, decode]
    · simp [hgroup, hrest]
    · simp

/-- What was encoded is decoded. -/
@[simp] theorem decode_encode (bytes : List UInt8) : decode (encode bytes) = some bytes := by
  induction bytes using encode.induct with
  | case1 => rfl
  | case2 a =>
    have ha := a.toNat_lt
    have hbyte : UInt8.ofNat (a.toNat / 4 * 4 + a.toNat % 4 * 16 / 16) = a := ofNat_eq (by omega)
    have hzero : a.toNat % 4 * 16 % 16 = 0 := by omega
    simp (disch := omega) only [encode, decode, decodeLast, value_digit, Option.bind_eq_bind,
      Option.bind_some, ne_eq, not_true_eq_false, if_false, hzero, if_true, hbyte]
  | case3 a b =>
    have ha := a.toNat_lt
    have hb := b.toNat_lt
    have hfirst : UInt8.ofNat
        (a.toNat / 4 * 4 + (a.toNat % 4 * 16 + b.toNat / 16) / 16) = a := ofNat_eq (by omega)
    have hsecond : UInt8.ofNat ((a.toNat % 4 * 16 + b.toNat / 16) * 16 +
        b.toNat % 16 * 4 / 4) = b := ofNat_eq (by omega)
    have hpad := digit_ne_pad (n := b.toNat % 16 * 4) (by omega)
    have hzero : b.toNat % 16 * 4 % 4 = 0 := by omega
    simp (disch := omega) only [encode, decode, decodeLast, value_digit, Option.bind_eq_bind,
      Option.bind_some, ne_eq, not_true_eq_false, if_false, hpad, not_false_eq_true, if_true,
      hzero, hfirst, hsecond]
  | case4 a b c rest ih =>
    have ha := a.toNat_lt
    have hb := b.toNat_lt
    have hc := c.toNat_lt
    obtain ⟨w, x, y, z, hquad, hz, hdecode⟩ :=
      decodeQuad_quad (n := a.toNat * 2 ^ 16 + b.toNat * 2 ^ 8 + c.toNat) (by omega)
    rw [encode, hquad, decode_group hdecode hz ih, bytesOf_sum]
    rfl

theorem encode_not_whitespace (bytes : List UInt8) :
    ∀ c ∈ encode bytes, isWhitespace c = false := by
  have hpad : isWhitespace '=' = false := by decide
  induction bytes using encode.induct with
  | case1 => simp [encode]
  | case2 a => simp [encode, digit_not_whitespace, hpad]
  | case3 a b => simp [encode, digit_not_whitespace, hpad]
  | case4 a b c rest ih =>
    intro d hd
    rw [encode, quad] at hd
    simp only [List.cons_append, List.nil_append, List.mem_cons] at hd
    obtain rfl | rfl | rfl | rfl | hd := hd
    · exact digit_not_whitespace _
    · exact digit_not_whitespace _
    · exact digit_not_whitespace _
    · exact digit_not_whitespace _
    · exact ih d hd

theorem trim_encode (bytes : List UInt8) : trim (encode bytes) = encode bytes :=
  trim_eq_self (encode_not_whitespace bytes)

end Groups

end Clawreform.Lib.Base64
