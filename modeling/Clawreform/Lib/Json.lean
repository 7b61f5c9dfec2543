import Clawreform.Lib.Text

namespace Clawreform.Lib.Json

open Clawreform.Lib.Text

/-- A JSON value. A number is kept as the text it is printed as, an object as
its fields in the order they are printed. -/
inductive Value where
  | null
  | bool (b : Bool)
  | number (text : Str)
  | string (s : Str)
  | array (vs : List Value)
  | object (fields : List (Str × Value))

namespace Value

mutual

def beq : Value → Value → Bool
  | .null, .null => true
  | .bool a, .bool b => a == b
  | .number a, .number b => a == b
  | .string a, .string b => a == b
  | .array as, .array bs => beqList as bs
  | .object as, .object bs => beqFields as bs
  | _, _ => false

def beqList : List Value → List Value → Bool
  | [], [] => true
  | a :: as, b :: bs => beq a b && beqList as bs
  | _, _ => false

def beqFields : List (Str × Value) → List (Str × Value) → Bool
  | [], [] => true
  | (k, a) :: as, (l, b) :: bs => k == l && beq a b && beqFields as bs
  | _, _ => false

end

mutual

theorem beq_iff : (a b : Value) → (beq a b = true ↔ a = b)
  | .null, b => by cases b <;> simp [beq]
  | .bool a, b => by cases b <;> simp [beq]
  | .number a, b => by cases b <;> simp [beq]
  | .string a, b => by cases b <;> simp [beq]
  | .array as, b => by cases b <;> simp [beq, beqList_iff as]
  | .object as, b => by cases b <;> simp [beq, beqFields_iff as]

theorem beqList_iff : (as bs : List Value) → (beqList as bs = true ↔ as = bs)
  | [], bs => by cases bs <;> simp [beqList]
  | a :: as, bs => by cases bs <;> simp [beqList, beq_iff a, beqList_iff as]

theorem beqFields_iff : (as bs : List (Str × Value)) → (beqFields as bs = true ↔ as = bs)
  | [], bs => by cases bs <;> simp [beqFields]
  | (k, a) :: as, [] => by simp [beqFields]
  | (k, a) :: as, (l, b) :: bs => by simp [beqFields, beq_iff a, beqFields_iff as]

end

instance : DecidableEq Value := fun a b => decidable_of_iff _ (beq_iff a b)

def get (key : Str) : Value → Option Value
  | .object fields => (fields.find? (fun f => f.1 == key)).map Prod.snd
  | _ => none

def asStr : Value → Option Str
  | .string s => some s
  | _ => none

def hexDigits (n : Nat) : Str :=
  let digits := Nat.toDigits 16 n
  List.replicate (4 - digits.length) '0' ++ digits

def escapeChar (c : Char) : Str :=
  if c = '"' then ['\\', '"']
  else if c = '\\' then ['\\', '\\']
  else if c.toNat = 8 then ['\\', 'b']
  else if c.toNat = 12 then ['\\', 'f']
  else if c = '\n' then ['\\', 'n']
  else if c = '\r' then ['\\', 'r']
  else if c = '\t' then ['\\', 't']
  else if c.toNat < 32 then ['\\', 'u'] ++ hexDigits c.toNat
  else [c]

def quote (s : Str) : Str := '"' :: (s.flatMap escapeChar ++ ['"'])

mutual

/-- The compact text of a value. -/
def toText : Value → Str
  | .null => "null".toList
  | .bool true => "true".toList
  | .bool false => "false".toList
  | .number text => text
  | .string s => quote s
  | .array [] => "[]".toList
  | .array (v :: vs) => '[' :: (toText v ++ restText vs)
  | .object [] => "{}".toList
  | .object ((k, v) :: fields) => '{' :: (quote k ++ (':' :: (toText v ++ fieldsText fields)))

def restText : List Value → Str
  | [] => "]".toList
  | v :: vs => ',' :: (toText v ++ restText vs)

def fieldsText : List (Str × Value) → Str
  | [] => "\x7d".toList
  | (k, v) :: fields => ',' :: (quote k ++ (':' :: (toText v ++ fieldsText fields)))

end

section Access

/-- What stands under a key; there is nothing but null in what is no object. -/
def index (key : String) (v : Value) : Value := (v.get key.toList).getD .null

def asArray : Value → Option (List Value)
  | .array vs => some vs
  | _ => none

/-- A number without sign, fraction and exponent that 64 bits hold. -/
def asU64 : Value → Option UInt64
  | .number text =>
    let n := Nat.ofDigitChars 10 text 0
    if text ≠ [] ∧ text.all Char.isDigit ∧ n < 2 ^ 64 then some (UInt64.ofNat n) else none
  | _ => none

def count (n : UInt64) : Value := .number (showNat n.toNat)

def obj (fields : List (String × Value)) : Value :=
  .object (fields.map fun f => (f.1.toList, f.2))

theorem get_obj_cons (k k' : String) (v : Value) (fields : List (String × Value)) :
    (obj ((k, v) :: fields)).get k'.toList =
      if k = k' then some v else (obj fields).get k'.toList := by
  show (((k.toList, v) :: fields.map fun f => (f.1.toList, f.2)).find?
    fun f => f.1 == k'.toList).map Prod.snd = _
  by_cases h : k = k'
  · rw [if_pos h, List.find?_cons_of_pos (by simp [h])]
    rfl
  · have hne : k.toList ≠ k'.toList := fun he => h (String.toList_injective he)
    rw [if_neg h, List.find?_cons_of_neg (by simpa using hne)]
    rfl

@[simp] theorem index_null (k : String) : Value.null.index k = .null := rfl

theorem index_obj_nil (k : String) : (obj []).index k = .null := rfl

theorem index_obj_cons (k k' : String) (v : Value) (fields : List (String × Value)) :
    (obj ((k, v) :: fields)).index k' = if k = k' then v else (obj fields).index k' := by
  unfold index
  rw [get_obj_cons]
  split <;> rfl

@[simp] theorem asStr_string (s : Str) : (Value.string s).asStr = some s := rfl

@[simp] theorem asStr_null : Value.null.asStr = none := rfl

@[simp] theorem asArray_array (vs : List Value) : (Value.array vs).asArray = some vs := rfl

@[simp] theorem asArray_null : Value.null.asArray = none := rfl

@[simp] theorem asU64_null : Value.null.asU64 = none := rfl

@[simp] theorem asU64_count (n : UInt64) : (count n).asU64 = some n := by
  have hdigits : (showNat n.toNat).all Char.isDigit = true :=
    List.all_eq_true.mpr fun c hc => Nat.isDigit_of_mem_toDigits (by decide) (by decide) hc
  have hne : showNat n.toNat ≠ [] := Nat.toDigits_ne_nil
  have hvalue : Nat.ofDigitChars 10 (showNat n.toNat) 0 = n.toNat :=
    Nat.ofDigitChars_toDigits (by decide) (by decide)
  simp only [count, asU64, hvalue]
  rw [if_pos ⟨hne, hdigits, n.toNat_lt⟩, UInt64.ofNat_toNat]

end Access

end Value

end Clawreform.Lib.Json
