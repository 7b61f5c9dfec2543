import Clawreform.Lib.Json

namespace Clawreform.Lib.JsonReading

open Clawreform.Lib.Text Clawreform.Lib.Json Clawreform.Lib.Json.Value

section Strings

def hexValue (c : Char) : Nat := if c.isDigit then c.toNat - 48 else c.toNat - 87

/-- The character an escape stands for, and what follows it. -/
def readEscape : Str → Option (Char × Str)
  | '"' :: s => some ('"', s)
  | '\\' :: s => some ('\\', s)
  | 'b' :: s => some (Char.ofNat 8, s)
  | 'f' :: s => some (Char.ofNat 12, s)
  | 'n' :: s => some ('\n', s)
  | 'r' :: s => some ('\r', s)
  | 't' :: s => some ('\t', s)
  | 'u' :: _ :: _ :: high :: low :: s => some (Char.ofNat (16 * hexValue high + hexValue low), s)
  | _ => none

/-- The first character of a string, written as an escape or as itself. -/
def readChar : Str → Option (Char × Str)
  | '\\' :: s => readEscape s
  | c :: s => some (c, s)
  | [] => none

theorem hexDigits_control : ∀ n < 32, ∃ high low,
    hexDigits n = ['0', '0', high, low] ∧ 16 * hexValue high + hexValue low = n := by
  have hcheck : ∀ n < 32, hexDigits n = ['0', '0', (n / 16).digitChar, (n % 16).digitChar] ∧
      16 * hexValue (n / 16).digitChar + hexValue (n % 16).digitChar = n := by
    decide
  exact fun n hn => ⟨_, _, hcheck n hn⟩

theorem readChar_escapeChar (c : Char) (s : Str) : readChar (escapeChar c ++ s) = some (c, s) := by
  unfold escapeChar
  split
  · subst c; rfl
  split
  · subst c; rfl
  split
  · rename_i hc
    obtain rfl : c = Char.ofNat 8 := by rw [← hc, Char.ofNat_toNat]
    rfl
  split
  · rename_i hc
    obtain rfl : c = Char.ofNat 12 := by rw [← hc, Char.ofNat_toNat]
    rfl
  split
  · subst c; rfl
  split
  · subst c; rfl
  split
  · subst c; rfl
  split
  · rename_i hc
    obtain ⟨high, low, hhex, hvalue⟩ := hexDigits_control c.toNat hc
    rw [hhex]
    simp only [List.cons_append, List.nil_append, readChar, readEscape, hvalue, Char.ofNat_toNat]
  · rename_i hbackslash _ _ _ _ _ _
    rw [List.singleton_append, readChar]
    exact fun h => hbackslash h

theorem escapeChar_ne_quote (c : Char) (s r : Str) : escapeChar c ++ s ≠ '"' :: r := by
  intro h
  have hread := readChar_escapeChar c s
  rw [h] at hread
  obtain ⟨rfl, rfl⟩ : '"' = c ∧ r = s := by simpa [readChar] using hread
  simp [escapeChar] at h

theorem escaped_inj {s t r r' : Str}
    (h : s.flatMap escapeChar ++ '"' :: r = t.flatMap escapeChar ++ '"' :: r') : s = t ∧ r = r' := by
  induction s generalizing t with
  | nil =>
    cases t with
    | nil => exact ⟨rfl, List.tail_eq_of_cons_eq h⟩
    | cons d t =>
      rw [List.flatMap_cons, List.append_assoc] at h
      exact absurd h.symm (escapeChar_ne_quote d _ _)
  | cons c s ih =>
    rw [List.flatMap_cons, List.append_assoc] at h
    cases t with
    | nil => exact absurd h (escapeChar_ne_quote c _ _)
    | cons d t =>
      rw [List.flatMap_cons, List.append_assoc] at h
      have hread := congrArg readChar h
      simp only [readChar_escapeChar, Option.some.injEq, Prod.mk.injEq] at hread
      obtain ⟨rfl, hrest⟩ := hread
      obtain ⟨rfl, rfl⟩ := ih hrest
      exact ⟨rfl, rfl⟩

theorem quote_inj {s t r r' : Str} (h : quote s ++ r = quote t ++ r') : s = t ∧ r = r' := by
  simp only [quote, List.cons_append, List.append_assoc, List.nil_append, List.cons.injEq,
    true_and] at h
  exact escaped_inj h

end Strings

section Values

def numberChar (c : Char) : Bool :=
  c.isDigit || c = '-' || c = '+' || c = '.' || c = 'e' || c = 'E'

/-- A text as numbers are printed. -/
def numberText (s : Str) : Bool := s ≠ [] && s.all numberChar

mutual

/-- All numbers of a value are printed as numbers. -/
def printable : Value → Bool
  | .number text => numberText text
  | .array vs => printableAll vs
  | .object fields => printableFields fields
  | _ => true

def printableAll : List Value → Bool
  | [] => true
  | v :: vs => printable v && printableAll vs

def printableFields : List (Str × Value) → Bool
  | [] => true
  | (_, v) :: fields => printable v && printableFields fields

end

/-- No number goes on into this text. -/
def Stops (r : Str) : Prop := ∀ c ∈ r.head?, ¬ numberChar c

theorem numberText_inj {s t r r' : Str} (hs : s.all numberChar) (ht : t.all numberChar)
    (hr : Stops r) (hr' : Stops r') (h : s ++ r = t ++ r') : s = t ∧ r = r' := by
  have htake (u q : Str) (hu : u.all numberChar) (hq : Stops q) :
      (u ++ q).takeWhile numberChar = u := by
    rw [List.takeWhile_append_of_pos (by simpa using hu)]
    cases q with
    | nil => simp
    | cons c q => rw [List.takeWhile_cons_of_neg (hq c rfl), List.append_nil]
  obtain rfl : s = t := by rw [← htake s r hs hr, h, htake t r' ht hr']
  exact ⟨rfl, List.append_cancel_left h⟩

/-- What the first character of a text says about the value. -/
def kindOf : Char → Nat
  | 'n' => 1
  | 't' => 2
  | 'f' => 3
  | '"' => 4
  | '[' => 5
  | '\x7b' => 6
  | _ => 0

def kind : Value → Nat
  | .null => 1
  | .bool true => 2
  | .bool false => 3
  | .string _ => 4
  | .array _ => 5
  | .object _ => 6
  | .number _ => 0

theorem kindOf_number {c : Char} (h : numberChar c) : kindOf c = 0 := by
  unfold kindOf
  split <;> first | rfl | cases h

theorem kind_of_text {v : Value} (hv : printable v) (r : Str) :
    ((toText v ++ r).head?.map kindOf) = some (kind v) := by
  cases v with
  | null => rfl
  | bool b => cases b <;> rfl
  | number text =>
    simp only [printable, numberText, Bool.and_eq_true, decide_eq_true_eq] at hv
    cases text with
    | nil => exact absurd rfl hv.1
    | cons c text =>
      have hc : numberChar c := (List.all_eq_true.mp hv.2) c List.mem_cons_self
      exact congrArg some (kindOf_number hc)
  | string s => rfl
  | array vs => cases vs <;> rfl
  | object fields =>
    cases fields with
    | nil => rfl
    | cons field fields => rfl

theorem kind_eq {v w : Value} {r r' : Str} (hv : printable v) (hw : printable w)
    (h : toText v ++ r = toText w ++ r') : kind v = kind w := by
  have hkind := kind_of_text hv r
  rw [h, kind_of_text hw r'] at hkind
  exact (Option.some.inj hkind).symm

theorem text_ne_bracket {v : Value} {r s : Str} (hv : printable v) :
    toText v ++ r ≠ ']' :: s := by
  intro h
  cases v with
  | bool b => cases b <;> simp [toText] at h
  | number text =>
    simp only [printable, numberText, Bool.and_eq_true, decide_eq_true_eq] at hv
    cases text with
    | nil => exact hv.1 rfl
    | cons c text =>
      obtain ⟨rfl, -⟩ : c = ']' ∧ text ++ r = s := by simpa [toText] using h
      exact absurd hv.2 (by simp [numberChar])
  | array vs => cases vs <;> simp [toText] at h
  | object fields =>
    cases fields with
    | nil => simp [toText] at h
    | cons field fields => simp [toText] at h
  | _ => simp [toText, quote] at h

theorem stops_restText (vs : List Value) (r : Str) : Stops (restText vs ++ r) := by
  cases vs <;> simp [Stops, restText, numberChar]

theorem stops_fieldsText (fields : List (Str × Value)) (r : Str) :
    Stops (fieldsText fields ++ r) := by
  cases fields <;> simp [Stops, fieldsText, numberChar]

mutual

/-- A text is the text of one value only, whatever stands behind it. -/
theorem toText_inj : (v w : Value) → {r r' : Str} → printable v → printable w → Stops r →
    Stops r' → toText v ++ r = toText w ++ r' → v = w ∧ r = r'
  | .null, w, r, r', hv, hw, hr, hr', h => by
    cases w with
    | null => exact ⟨rfl, List.append_cancel_left h⟩
    | bool b => cases b <;> exact absurd (kind_eq hv hw h) (by simp [kind])
    | _ => exact absurd (kind_eq hv hw h) (by simp [kind])
  | .bool a, w, r, r', hv, hw, hr, hr', h => by
    cases w with
    | bool b =>
      cases a <;> cases b
      · exact ⟨rfl, List.append_cancel_left h⟩
      · exact absurd (kind_eq hv hw h) (by simp [kind])
      · exact absurd (kind_eq hv hw h) (by simp [kind])
      · exact ⟨rfl, List.append_cancel_left h⟩
    | _ => cases a <;> exact absurd (kind_eq hv hw h) (by simp [kind])
  | .number s, w, r, r', hv, hw, hr, hr', h => by
    cases w with
    | number t =>
      simp only [printable, numberText, Bool.and_eq_true] at hv hw
      obtain ⟨rfl, rfl⟩ := numberText_inj hv.2 hw.2 hr hr' h
      exact ⟨rfl, rfl⟩
    | bool b => cases b <;> exact absurd (kind_eq hv hw h) (by simp [kind])
    | _ => exact absurd (kind_eq hv hw h) (by simp [kind])
  | .string s, w, r, r', hv, hw, hr, hr', h => by
    cases w with
    | string t =>
      obtain ⟨rfl, rfl⟩ := quote_inj h
      exact ⟨rfl, rfl⟩
    | bool b => cases b <;> exact absurd (kind_eq hv hw h) (by simp [kind])
    | _ => exact absurd (kind_eq hv hw h) (by simp [kind])
  | .array vs, w, r, r', hv, hw, hr, hr', h => by
    cases w with
    | array ws =>
      simp only [printable] at hv hw
      cases vs with
      | nil =>
        cases ws with
        | nil => exact ⟨rfl, List.append_cancel_left h⟩
        | cons w ws =>
          simp only [printableAll, Bool.and_eq_true] at hw
          simp only [toText, String.reduceToList, List.cons_append, List.nil_append,
            List.append_assoc, List.cons.injEq, true_and] at h
          exact absurd h.symm (text_ne_bracket hw.1)
      | cons v vs =>
        simp only [printableAll, Bool.and_eq_true] at hv
        cases ws with
        | nil =>
          simp only [toText, String.reduceToList, List.cons_append, List.nil_append,
            List.append_assoc, List.cons.injEq, true_and] at h
          exact absurd h (text_ne_bracket hv.1)
        | cons w ws =>
          simp only [printableAll, Bool.and_eq_true] at hw
          simp only [toText, List.cons_append, List.append_assoc, List.cons.injEq, true_and] at h
          obtain ⟨rfl, hrest⟩ := toText_inj v w hv.1 hw.1 (stops_restText vs r)
            (stops_restText ws r') h
          obtain ⟨rfl, rfl⟩ := restText_inj vs ws hv.2 hw.2 hrest
          exact ⟨rfl, rfl⟩
    | bool b => cases b <;> exact absurd (kind_eq hv hw h) (by simp [kind])
    | _ => exact absurd (kind_eq hv hw h) (by simp [kind])
  | .object fields, w, r, r', hv, hw, hr, hr', h => by
    cases w with
    | object fields' =>
      simp only [printable] at hv hw
      cases fields with
      | nil =>
        cases fields' with
        | nil => exact ⟨rfl, List.append_cancel_left h⟩
        | cons field fields' => simp [toText, quote] at h
      | cons field fields =>
        obtain ⟨k, v⟩ := field
        cases fields' with
        | nil => simp [toText, quote] at h
        | cons field' fields' =>
          obtain ⟨l, w⟩ := field'
          simp only [printableFields, Bool.and_eq_true] at hv hw
          simp only [toText, List.cons_append, List.append_assoc, List.cons.injEq, true_and] at h
          obtain ⟨rfl, hvalue⟩ := quote_inj h
          simp only [List.cons.injEq, true_and] at hvalue
          obtain ⟨rfl, hrest⟩ := toText_inj v w hv.1 hw.1 (stops_fieldsText fields r)
            (stops_fieldsText fields' r') hvalue
          obtain ⟨rfl, rfl⟩ := fieldsText_inj fields fields' hv.2 hw.2 hrest
          exact ⟨rfl, rfl⟩
    | bool b => cases b <;> exact absurd (kind_eq hv hw h) (by simp [kind])
    | _ => exact absurd (kind_eq hv hw h) (by simp [kind])

theorem restText_inj : (vs ws : List Value) → {r r' : Str} → printableAll vs → printableAll ws →
    restText vs ++ r = restText ws ++ r' → vs = ws ∧ r = r'
  | [], ws, r, r', hvs, hws, h => by
    cases ws with
    | nil => exact ⟨rfl, List.append_cancel_left h⟩
    | cons w ws => simp [restText] at h
  | v :: vs, ws, r, r', hvs, hws, h => by
    cases ws with
    | nil => simp [restText] at h
    | cons w ws =>
      simp only [printableAll, Bool.and_eq_true] at hvs hws
      simp only [restText, List.cons_append, List.append_assoc, List.cons.injEq, true_and] at h
      obtain ⟨rfl, hrest⟩ := toText_inj v w hvs.1 hws.1 (stops_restText vs r)
        (stops_restText ws r') h
      obtain ⟨rfl, rfl⟩ := restText_inj vs ws hvs.2 hws.2 hrest
      exact ⟨rfl, rfl⟩

theorem fieldsText_inj : (fs gs : List (Str × Value)) → {r r' : Str} → printableFields fs →
    printableFields gs → fieldsText fs ++ r = fieldsText gs ++ r' → fs = gs ∧ r = r'
  | [], gs, r, r', hfs, hgs, h => by
    cases gs with
    | nil => exact ⟨rfl, List.append_cancel_left h⟩
    | cons g gs => simp [fieldsText] at h
  | (k, v) :: fs, gs, r, r', hfs, hgs, h => by
    cases gs with
    | nil => simp [fieldsText] at h
    | cons g gs =>
      obtain ⟨l, w⟩ := g
      simp only [printableFields, Bool.and_eq_true] at hfs hgs
      simp only [fieldsText, List.cons_append, List.append_assoc, List.cons.injEq, true_and] at h
      obtain ⟨rfl, hvalue⟩ := quote_inj h
      simp only [List.cons.injEq, true_and] at hvalue
      obtain ⟨rfl, hrest⟩ := toText_inj v w hfs.1 hgs.1 (stops_fieldsText fs r)
        (stops_fieldsText gs r') hvalue
      obtain ⟨rfl, rfl⟩ := fieldsText_inj fs gs hfs.2 hgs.2 hrest
      exact ⟨rfl, rfl⟩

end

theorem toText_injective {v w : Value} (hv : printable v) (hw : printable w)
    (h : toText v = toText w) : v = w := by
  have hstops : Stops [] := by simp [Stops]
  have happend : toText v ++ [] = toText w ++ [] := by rw [h]
  exact (toText_inj v w hv hw hstops hstops happend).1

end Values

end Clawreform.Lib.JsonReading
