import Clawreform.Lib.Text

namespace Clawreform.Lib.Utf8

open Clawreform.Lib.Text

def encode (s : Str) : List UInt8 := s.flatMap String.utf8EncodeChar

@[simp] theorem encode_nil : encode [] = [] := rfl

@[simp] theorem encode_cons (c : Char) (s : Str) :
    encode (c :: s) = String.utf8EncodeChar c ++ encode s := rfl

/-- Within a character: how many bytes are to come, where the next of them may lie, and the
bits so far. -/
structure Pending where
  more : Nat
  lo : Nat
  hi : Nat
  acc : Nat
  deriving DecidableEq

def replacement : Char := '\uFFFD'

/-- What the first byte of a character says: a whole character, a part, or nothing valid. -/
def start (b : Nat) : Str × Option Pending :=
  if b < 0x80 then ([Char.ofNat b], none)
  else if 0xC2 ≤ b ∧ b ≤ 0xDF then ([], some ⟨1, 0x80, 0xBF, b % 32⟩)
  else if b = 0xE0 then ([], some ⟨2, 0xA0, 0xBF, b % 16⟩)
  else if b = 0xED then ([], some ⟨2, 0x80, 0x9F, b % 16⟩)
  else if 0xE1 ≤ b ∧ b ≤ 0xEF then ([], some ⟨2, 0x80, 0xBF, b % 16⟩)
  else if b = 0xF0 then ([], some ⟨3, 0x90, 0xBF, b % 8⟩)
  else if b = 0xF4 then ([], some ⟨3, 0x80, 0x8F, b % 8⟩)
  else if 0xF1 ≤ b ∧ b ≤ 0xF3 then ([], some ⟨3, 0x80, 0xBF, b % 8⟩)
  else ([replacement], none)

/-- A byte that does not go on with a character ends it, and starts another. -/
def stepByte (state : Option Pending) (byte : UInt8) : Str × Option Pending :=
  let b := byte.toNat
  match state with
  | none => start b
  | some p =>
    if p.lo ≤ b ∧ b ≤ p.hi then
      let acc := p.acc * 64 + b % 64
      if p.more = 1 then ([Char.ofNat acc], none) else ([], some ⟨p.more - 1, 0x80, 0xBF, acc⟩)
    else (replacement :: (start b).1, (start b).2)

def lossyFrom (state : Option Pending) : List UInt8 → Str
  | [] => if state.isSome then [replacement] else []
  | b :: bs => (stepByte state b).1 ++ lossyFrom (stepByte state b).2 bs

/-- The text of some bytes, with a replacement character for every longest part that is not
valid. -/
def fromUtf8Lossy (bytes : List UInt8) : Str := lossyFrom none bytes

theorem lossyFrom_cons (state : Option Pending) (b : UInt8) (bs : List UInt8) :
    lossyFrom state (b :: bs) = (stepByte state b).1 ++ lossyFrom (stepByte state b).2 bs := rfl

theorem toNat_cases (c : Char) : c.toNat < 0xD800 ∨ 0xDFFF < c.toNat ∧ c.toNat < 0x110000 := c.valid

/-- The next byte of a character goes on with it. -/
theorem stepByte_more {more lo hi acc n : Nat} (hmore : 1 < more) (hlo : lo ≤ n) (hhi : n ≤ hi)
    (hn : n < 256) : stepByte (some ⟨more, lo, hi, acc⟩) (UInt8.ofNat n) =
      ([], some ⟨more - 1, 0x80, 0xBF, acc * 64 + n % 64⟩) := by
  have htoNat : (UInt8.ofNat n).toNat = n := UInt8.toNat_ofNat_of_lt hn
  simp only [stepByte, htoNat]
  rw [if_pos ⟨hlo, hhi⟩, if_neg (by omega)]

/-- The last byte of a character ends it. -/
theorem stepByte_last {lo hi acc n : Nat} (hlo : lo ≤ n) (hhi : n ≤ hi) (hn : n < 256) :
    stepByte (some ⟨1, lo, hi, acc⟩) (UInt8.ofNat n) =
      ([Char.ofNat (acc * 64 + n % 64)], none) := by
  have htoNat : (UInt8.ofNat n).toNat = n := UInt8.toNat_ofNat_of_lt hn
  simp only [stepByte, htoNat]
  rw [if_pos ⟨hlo, hhi⟩, if_pos trivial]

theorem stepByte_first {n : Nat} (hn : n < 256) : stepByte none (UInt8.ofNat n) = start n := by
  have htoNat : (UInt8.ofNat n).toNat = n := UInt8.toNat_ofNat_of_lt hn
  simp only [stepByte, htoNat]

theorem encodeChar_one {c : Char} (h : c.toNat ≤ 0x7F) :
    String.utf8EncodeChar c = [UInt8.ofNat c.toNat] := if_pos h

theorem encodeChar_two {c : Char} (h : 0x7F < c.toNat) (h' : c.toNat ≤ 0x7FF) :
    String.utf8EncodeChar c =
      [UInt8.ofNat (c.toNat / 64 % 0x20 + 0xC0), UInt8.ofNat (c.toNat % 0x40 + 0x80)] :=
  (if_neg (Nat.not_le.mpr h)).trans (if_pos h')

theorem encodeChar_three {c : Char} (h : 0x7FF < c.toNat) (h' : c.toNat ≤ 0xFFFF) :
    String.utf8EncodeChar c =
      [UInt8.ofNat (c.toNat / 4096 % 0x10 + 0xE0), UInt8.ofNat (c.toNat / 64 % 0x40 + 0x80),
        UInt8.ofNat (c.toNat % 0x40 + 0x80)] :=
  (if_neg (show ¬ c.toNat ≤ 0x7F by omega)).trans
    ((if_neg (Nat.not_le.mpr h)).trans (if_pos h'))

theorem encodeChar_four {c : Char} (h : 0xFFFF < c.toNat) :
    String.utf8EncodeChar c =
      [UInt8.ofNat (c.toNat / 262144 % 0x08 + 0xF0), UInt8.ofNat (c.toNat / 4096 % 0x40 + 0x80),
        UInt8.ofNat (c.toNat / 64 % 0x40 + 0x80), UInt8.ofNat (c.toNat % 0x40 + 0x80)] :=
  (if_neg (show ¬ c.toNat ≤ 0x7F by omega)).trans
    ((if_neg (show ¬ c.toNat ≤ 0x7FF by omega)).trans (if_neg (Nat.not_le.mpr h)))

/-- The first byte of a character of two, three or four bytes. -/
theorem start_two {n : Nat} (h : 2 ≤ n) (h' : n < 0x20) :
    start (n + 0xC0) = ([], some ⟨1, 0x80, 0xBF, n⟩) := by
  unfold start
  rw [if_neg (by omega), if_pos (by omega), show (n + 0xC0) % 32 = n by omega]

theorem start_three {n : Nat} (h : n < 0x10) : ∃ lo hi,
    start (n + 0xE0) = ([], some ⟨2, lo, hi, n⟩) ∧
      ∀ m, m < 0x40 → (n = 0 → 0x20 ≤ m) → (n = 13 → m < 0x20) → lo ≤ m + 0x80 ∧ m + 0x80 ≤ hi := by
  unfold start
  rw [if_neg (by omega), if_neg (by omega), show (n + 0xE0) % 16 = n by omega]
  split
  · exact ⟨_, _, rfl, fun m _ _ _ => by omega⟩
  · split
    · exact ⟨_, _, rfl, fun m _ _ _ => by omega⟩
    · rw [if_pos (by omega)]
      exact ⟨_, _, rfl, fun m _ _ _ => by omega⟩

theorem start_four {n : Nat} (h : n < 5) : ∃ lo hi,
    start (n + 0xF0) = ([], some ⟨3, lo, hi, n⟩) ∧
      ∀ m, m < 0x40 → (n = 0 → 0x10 ≤ m) → (n = 4 → m < 0x10) → lo ≤ m + 0x80 ∧ m + 0x80 ≤ hi := by
  unfold start
  rw [if_neg (by omega), if_neg (by omega), if_neg (by omega), if_neg (by omega),
    if_neg (by omega), show (n + 0xF0) % 8 = n by omega]
  split
  · exact ⟨_, _, rfl, fun m _ _ _ => by omega⟩
  · split
    · exact ⟨_, _, rfl, fun m _ _ _ => by omega⟩
    · rw [if_pos (by omega)]
      exact ⟨_, _, rfl, fun m _ _ _ => by omega⟩

theorem lossyFrom_char (c : Char) (bs : List UInt8) :
    lossyFrom none (String.utf8EncodeChar c ++ bs) = c :: lossyFrom none bs := by
  have hvalid := toNat_cases c
  have hc : ∀ n, n = c.toNat → Char.ofNat n = c := by
    rintro _ rfl
    exact Char.ofNat_toNat c
  by_cases h1 : c.toNat ≤ 0x7F
  · rw [encodeChar_one h1, List.singleton_append, lossyFrom_cons, stepByte_first (by omega), start,
      if_pos (by omega), hc _ rfl]
    rfl
  · by_cases h2 : c.toNat ≤ 0x7FF
    · rw [encodeChar_two (by omega) h2, List.cons_append, List.singleton_append, lossyFrom_cons,
        stepByte_first (by omega), start_two (by omega) (by omega), lossyFrom_cons,
        stepByte_last (by omega) (by omega) (by omega), hc _ (by omega)]
      rfl
    · by_cases h3 : c.toNat ≤ 0xFFFF
      · obtain ⟨lo, hi, hstart, hnext⟩ := start_three (n := c.toNat / 4096 % 0x10) (by omega)
        obtain ⟨hlo, hhi⟩ := hnext (c.toNat / 64 % 0x40) (by omega) (by omega) (by omega)
        rw [encodeChar_three (by omega) h3, List.cons_append, List.cons_append,
          List.singleton_append, lossyFrom_cons, stepByte_first (by omega), hstart, lossyFrom_cons,
          stepByte_more (by omega) hlo hhi (by omega), lossyFrom_cons,
          stepByte_last (by omega) (by omega) (by omega), hc _ (by omega)]
        rfl
      · obtain ⟨lo, hi, hstart, hnext⟩ := start_four (n := c.toNat / 262144 % 0x08) (by omega)
        obtain ⟨hlo, hhi⟩ := hnext (c.toNat / 4096 % 0x40) (by omega) (by omega) (by omega)
        rw [encodeChar_four (by omega), List.cons_append, List.cons_append, List.cons_append,
          List.singleton_append, lossyFrom_cons, stepByte_first (by omega), hstart, lossyFrom_cons,
          stepByte_more (by omega) hlo hhi (by omega), lossyFrom_cons,
          stepByte_more (by omega) (by omega) (by omega) (by omega), lossyFrom_cons,
          stepByte_last (by omega) (by omega) (by omega), hc _ (by omega)]
        rfl

theorem fromUtf8Lossy_append (s : Str) (bs : List UInt8) :
    fromUtf8Lossy (encode s ++ bs) = s ++ fromUtf8Lossy bs := by
  induction s with
  | nil => rfl
  | cons c s ih =>
    rw [encode_cons, List.append_assoc]
    exact (lossyFrom_char c _).trans (congrArg (c :: ·) ih)

@[simp] theorem fromUtf8Lossy_encode (s : Str) : fromUtf8Lossy (encode s) = s := by
  have h := fromUtf8Lossy_append s []
  rwa [List.append_nil, show fromUtf8Lossy [] = [] from rfl, List.append_nil] at h

theorem encode_injective {s t : Str} (h : encode s = encode t) : s = t := by
  rw [← fromUtf8Lossy_encode s, h, fromUtf8Lossy_encode]

/-- The bytes are those of a text. -/
def IsUtf8 (bytes : List UInt8) : Prop := ∃ s, encode s = bytes

/-- Texts that are sent one by one are read as if they were sent at once. -/
theorem flatten_fromUtf8Lossy {chunks : List (List UInt8)} (h : ∀ chunk ∈ chunks, IsUtf8 chunk) :
    (chunks.map fromUtf8Lossy).flatten = fromUtf8Lossy chunks.flatten := by
  induction chunks with
  | nil => rfl
  | cons chunk chunks ih =>
    rw [List.forall_mem_cons] at h
    obtain ⟨⟨s, rfl⟩, hrest⟩ := h
    rw [List.map_cons, List.flatten_cons, List.flatten_cons, fromUtf8Lossy_encode, ih hrest,
      fromUtf8Lossy_append]

end Clawreform.Lib.Utf8
