import Clawreform.Lib.Text
import Mathlib.Data.Char
import Mathlib.Data.List.Lex
import Mathlib.Data.List.Sort

namespace Clawreform.Lib.Serde

open Clawreform.Lib.Text

/-- The bits of a floating point number. -/
inductive FloatBits where
  | single (bits : BitVec 32)
  | double (bits : BitVec 64)
  deriving DecidableEq

def FloatBits.isFinite : FloatBits → Bool
  | .single bits => bits.extractLsb' 23 8 ≠ 255#8
  | .double bits => bits.extractLsb' 52 11 ≠ 2047#11

/-- What a serializer sees of a value. A path is its bytes, and the entries of a map come
in the order in which the map hands them out. -/
inductive Data where
  | bool (b : Bool)
  | int (n : Int)
  | real (x : FloatBits)
  | text (s : Str)
  | path (bytes : List UInt8)
  | none
  | some (value : Data)
  | seq (items : List Data)
  | map (entries : List (Str × Data))
  | struct (fields : List (Str × Data))
  | unit (name : Str)
  | tagged (tag name : Str) (fields : List (Str × Data))

/-- The types of the values. An enumeration without data is given by its names, one with
data by the fields under each name, with the name itself in the field `tag`. -/
inductive Shape where
  | bool
  | uint (bits : Nat)
  | sint (bits : Nat)
  | f32
  | f64
  | text
  | path
  | option (shape : Shape)
  | seq (shape : Shape)
  | map (shape : Shape)
  | struct (fields : List (Str × Shape))
  | unit (names : List Str)
  | tagged (tag : Str) (variants : List (Str × List (Str × Shape)))

def Shape.nullable : Shape → Bool
  | .option _ => true
  | .f32 => true
  | .f64 => true
  | _ => false

section Typing

mutual

/-- Whether a value has a type. There are no options of what can be null itself. -/
@[grind =] def fits : Shape → Data → Bool
  | .bool, .bool _ => true
  | .uint bits, .int n => 0 ≤ n && n < 2 ^ bits
  | .sint bits, .int n => -2 ^ (bits - 1) ≤ n && n < 2 ^ (bits - 1)
  | .f32, .real (.single _) => true
  | .f64, .real (.double _) => true
  | .text, .text _ => true
  | .path, .path _ => true
  | .option _, .none => true
  | .option shape, .some value => !shape.nullable && fits shape value
  | .seq shape, .seq items => items.all (fits shape)
  | .map shape, .map entries => (entries.map (·.1)).Nodup && entries.all (fits shape ·.2)
  | .struct shapes, .struct fields => fitsFields shapes fields
  | .unit names, .unit name => name ∈ names
  | .tagged tag variants, .tagged tag' name fields => tag = tag' && fitsVariant variants name fields
  | _, _ => false

def fitsFields : List (Str × Shape) → List (Str × Data) → Bool
  | [], [] => true
  | (name, shape) :: shapes, (name', value) :: fields =>
    name = name' && fits shape value && fitsFields shapes fields
  | _, _ => false

def fitsVariant : List (Str × List (Str × Shape)) → Str → List (Str × Data) → Bool
  | [], _, _ => false
  | (name, shapes) :: variants, name', fields =>
    if name = name' then fitsFields shapes fields else fitsVariant variants name' fields

end

mutual

/-- Whether a property holds of a type and of all types inside it. -/
@[grind =] def Shape.all (p : Shape → Bool) : Shape → Bool
  | .option shape => p (.option shape) && shape.all p
  | .seq shape => p (.seq shape) && shape.all p
  | .map shape => p (.map shape) && shape.all p
  | .struct fields => p (.struct fields) && allFields p fields
  | .tagged tag variants => p (.tagged tag variants) && allVariants p variants
  | shape => p shape

def allFields (p : Shape → Bool) : List (Str × Shape) → Bool
  | [] => true
  | (_, shape) :: fields => shape.all p && allFields p fields

def allVariants (p : Shape → Bool) : List (Str × List (Str × Shape)) → Bool
  | [] => true
  | (_, fields) :: variants => allFields p fields && allVariants p variants

end

/-- A value of a type that has a property throughout. -/
def Built (p : Shape → Bool) (value : Data) : Prop := ∃ shape, fits shape value ∧ shape.all p

theorem built_fields {p : Shape → Bool} {shapes : List (Str × Shape)} {fields : List (Str × Data)}
    (hfits : fitsFields shapes fields) (hall : allFields p shapes) :
    ∀ field ∈ fields, Built p field.2 := by
  induction shapes generalizing fields with
  | nil =>
    cases fields with
    | nil => simp
    | cons field fields => simp [fitsFields] at hfits
  | cons shape shapes ih =>
    cases fields with
    | nil => simp
    | cons field fields =>
      simp only [fitsFields, Bool.and_eq_true] at hfits
      simp only [allFields, Bool.and_eq_true] at hall
      rw [List.forall_mem_cons]
      exact ⟨⟨shape.2, hfits.1.2, hall.1⟩, ih hfits.2 hall.2⟩

theorem built_variant {p : Shape → Bool} {variants : List (Str × List (Str × Shape))} {name : Str}
    {fields : List (Str × Data)} (hfits : fitsVariant variants name fields)
    (hall : allVariants p variants) : ∀ field ∈ fields, Built p field.2 := by
  induction variants with
  | nil => simp [fitsVariant] at hfits
  | cons variant variants ih =>
    simp only [allVariants, Bool.and_eq_true] at hall
    simp only [fitsVariant] at hfits
    split at hfits
    · exact built_fields hfits hall.1
    · exact ih hfits hall.2

/-- What stands directly inside a value is built like the value. -/
theorem Built.some {p : Shape → Bool} {value : Data} (h : Built p (.some value)) :
    Built p value := by
  obtain ⟨shape, hfits, hall⟩ := h
  cases shape <;> simp only [fits, Bool.false_eq_true, Bool.and_eq_true] at hfits
  simp only [Shape.all, Bool.and_eq_true] at hall
  exact ⟨_, hfits.2, hall.2⟩

theorem Built.seq {p : Shape → Bool} {items : List Data} (h : Built p (.seq items)) :
    ∀ value ∈ items, Built p value := by
  obtain ⟨shape, hfits, hall⟩ := h
  cases shape <;> simp only [fits, Bool.false_eq_true, List.all_eq_true] at hfits
  simp only [Shape.all, Bool.and_eq_true] at hall
  exact fun value hvalue => ⟨_, hfits value hvalue, hall.2⟩

theorem Built.map {p : Shape → Bool} {entries : List (Str × Data)} (h : Built p (.map entries)) :
    ∀ entry ∈ entries, Built p entry.2 := by
  obtain ⟨shape, hfits, hall⟩ := h
  cases shape <;>
    simp only [fits, Bool.false_eq_true, Bool.and_eq_true, List.all_eq_true] at hfits
  simp only [Shape.all, Bool.and_eq_true] at hall
  exact fun entry hentry => ⟨_, hfits.2 entry hentry, hall.2⟩

theorem Built.struct {p : Shape → Bool} {fields : List (Str × Data)}
    (h : Built p (.struct fields)) : ∀ field ∈ fields, Built p field.2 := by
  obtain ⟨shape, hfits, hall⟩ := h
  cases shape <;> simp only [fits, Bool.false_eq_true] at hfits
  simp only [Shape.all, Bool.and_eq_true] at hall
  exact built_fields hfits hall.2

theorem Built.tagged {p : Shape → Bool} {tag name : Str} {fields : List (Str × Data)}
    (h : Built p (.tagged tag name fields)) : ∀ field ∈ fields, Built p field.2 := by
  obtain ⟨shape, hfits, hall⟩ := h
  cases shape <;> simp only [fits, Bool.false_eq_true, Bool.and_eq_true] at hfits
  simp only [Shape.all, Bool.and_eq_true] at hall
  exact built_variant hfits.2 hall.2

/-- A value of a type. -/
abbrev Typed (shape : Shape) := {value : Data // fits shape value}

def Shape.hasValue : Shape → Bool
  | .unit names => names ≠ []
  | .tagged _ variants => variants ≠ []
  | _ => true

mutual

/-- Some value of a type, with nothing in it that can be left out. -/
def sample : Shape → Data
  | .bool => .bool false
  | .uint _ => .int 0
  | .sint _ => .int 0
  | .f32 => .real (.single 0#32)
  | .f64 => .real (.double 0#64)
  | .text => .text []
  | .path => .path []
  | .option _ => .none
  | .seq _ => .seq []
  | .map _ => .map []
  | .struct fields => .struct (sampleFields fields)
  | .unit names => .unit (names.headD [])
  | .tagged tag [] => .tagged tag [] []
  | .tagged tag ((name, fields) :: _) => .tagged tag name (sampleFields fields)

def sampleFields : List (Str × Shape) → List (Str × Data)
  | [] => []
  | (name, shape) :: fields => (name, sample shape) :: sampleFields fields

end

mutual

theorem fits_sample : (shape : Shape) → shape.all Shape.hasValue → fits shape (sample shape)
  | .sint bits, _ => by simp [sample, fits]
  | .struct fields, h => by
    simp only [Shape.all, Bool.and_eq_true] at h
    exact fitsFields_sample fields h.2
  | .unit names, h => by
    cases names with
    | nil => cases h
    | cons name names => simp [sample, fits]
  | .tagged tag [], h => by simp [Shape.all, Shape.hasValue] at h
  | .tagged tag ((name, fields) :: variants), h => by
    simp only [Shape.all, allVariants, Bool.and_eq_true] at h
    simp [sample, fits, fitsVariant, fitsFields_sample fields h.2.1]
  | .bool, _ | .uint _, _ | .f32, _ | .f64, _ | .text, _ | .path, _ | .option _, _ | .seq _, _
  | .map _, _ => by simp [sample, fits]

theorem fitsFields_sample : (fields : List (Str × Shape)) → allFields Shape.hasValue fields →
    fitsFields fields (sampleFields fields)
  | [], _ => rfl
  | (name, shape) :: fields, h => by
    simp only [allFields, Bool.and_eq_true] at h
    simp [sampleFields, fitsFields, fits_sample shape h.1, fitsFields_sample fields h.2]

end

end Typing

section Equality

def sortEntries (entries : List (Str × Data)) : List (Str × Data) :=
  entries.insertionSort fun a b => a.1 ≤ b.1

mutual

/-- A value with the entries of its maps in the order of their keys. -/
def normal : Data → Data
  | .some value => .some (normal value)
  | .seq items => .seq (normalItems items)
  | .map entries => .map (sortEntries (normalFields entries))
  | .struct fields => .struct (normalFields fields)
  | .tagged tag name fields => .tagged tag name (normalFields fields)
  | value => value

def normalItems : List Data → List Data
  | [] => []
  | value :: items => normal value :: normalItems items

def normalFields : List (Str × Data) → List (Str × Data)
  | [] => []
  | (name, value) :: fields => (name, normal value) :: normalFields fields

end

/-- The order of the entries is no part of what a map is. -/
def Same (v w : Data) : Prop := normal v = normal w

/-- Types without maps. -/
def Shape.mapless : Shape → Bool
  | .map _ => false
  | _ => true

mutual

theorem normal_eq_self : (value : Data) → Built Shape.mapless value → normal value = value
  | .map entries, ⟨shape, hfits, hall⟩ => by
    cases shape <;> simp_all [fits, Shape.all, Shape.mapless]
  | .some value, h => by rw [normal, normal_eq_self value h.some]
  | .seq items, h => by rw [normal, normalItems_eq_self items h.seq]
  | .struct fields, h => by rw [normal, normalFields_eq_self fields h.struct]
  | .tagged tag name fields, h => by rw [normal, normalFields_eq_self fields h.tagged]
  | .bool b, _ | .int n, _ | .real x, _ | .text s, _ | .path bytes, _ | .none, _ | .unit name, _ =>
    rfl

theorem normalItems_eq_self : (items : List Data) → (∀ value ∈ items, Built Shape.mapless value) →
    normalItems items = items
  | [], _ => rfl
  | value :: items, h => by
    rw [List.forall_mem_cons] at h
    rw [normalItems, normal_eq_self value h.1, normalItems_eq_self items h.2]

theorem normalFields_eq_self : (fields : List (Str × Data)) →
    (∀ field ∈ fields, Built Shape.mapless field.2) → normalFields fields = fields
  | [], _ => rfl
  | (name, value) :: fields, h => by
    rw [List.forall_mem_cons] at h
    rw [normalFields, normal_eq_self value h.1, normalFields_eq_self fields h.2]

end

theorem same_iff_eq {v w : Data} (hv : Built Shape.mapless v) (hw : Built Shape.mapless w) :
    Same v w ↔ v = w := by
  rw [Same, normal_eq_self v hv, normal_eq_self w hw]

end Equality

end Clawreform.Lib.Serde
