import Clawreform.Lib.Serde
import Clawreform.Lib.JsonReading

namespace Clawreform.Lib.SerdeJson

open Clawreform.Lib.Text Clawreform.Lib.JsonReading Clawreform.Lib.Serde

section Serializing

def showInt (n : Int) : Str := if n < 0 then '-' :: showNat n.natAbs else showNat n.natAbs

/-- The text of a path, if it is one. -/
def pathText (bytes : List UInt8) : Option Str :=
  (String.fromUTF8? ⟨bytes.toArray⟩).map String.toList

/-- How numbers are printed: as numbers, and two of one type as two texts. -/
structure Prints (showReal : FloatBits → Str) : Prop where
  number : ∀ x : FloatBits, x.isFinite → numberText (showReal x)
  single : ∀ a b : BitVec 32, (FloatBits.single a).isFinite → (FloatBits.single b).isFinite →
    showReal (.single a) = showReal (.single b) → a = b
  double : ∀ a b : BitVec 64, (FloatBits.double a).isFinite → (FloatBits.double b).isFinite →
    showReal (.double a) = showReal (.double b) → a = b

variable (showReal : FloatBits → Str)

mutual

/-- Serializing fails on a path that is not a text. -/
def toJson : Data → Option Json.Value
  | .bool b => some (.bool b)
  | .int n => some (.number (showInt n))
  | .real x => some (if x.isFinite then .number (showReal x) else .null)
  | .text s => some (.string s)
  | .path bytes => (pathText bytes).map .string
  | .none => some .null
  | .some value => toJson value
  | .seq items => (itemsJson items).map .array
  | .map entries => (fieldsJson entries).map .object
  | .struct fields => (fieldsJson fields).map .object
  | .unit name => some (.string name)
  | .tagged tag name fields =>
    (fieldsJson fields).map fun json => .object ((tag, .string name) :: json)

def itemsJson : List Data → Option (List Json.Value)
  | [] => some []
  | value :: items => (toJson value).bind fun v => (itemsJson items).map (v :: ·)

def fieldsJson : List (Str × Data) → Option (List (Str × Json.Value))
  | [] => some []
  | (name, value) :: fields =>
    (toJson value).bind fun v => (fieldsJson fields).map ((name, v) :: ·)

end

/-- The JSON text of a value. -/
def jsonText (value : Data) : Option Str := (toJson showReal value).map Json.Value.toText

end Serializing

section Visible

mutual

/-- What the JSON text still shows of a value: numbers that are not finite look alike, and
there is nothing to see of a value with a path that is not a text. -/
def visible : Data → Option Data
  | .real x => some (.real (if x.isFinite then x else .single 0x7FC00000#32))
  | .path bytes => (pathText bytes).map fun _ => .path bytes
  | .some value => (visible value).map .some
  | .seq items => (visibleItems items).map .seq
  | .map entries => (visibleFields entries).map .map
  | .struct fields => (visibleFields fields).map .struct
  | .tagged tag name fields => (visibleFields fields).map (.tagged tag name)
  | value => some value

def visibleItems : List Data → Option (List Data)
  | [] => some []
  | value :: items => (visible value).bind fun v => (visibleItems items).map (v :: ·)

def visibleFields : List (Str × Data) → Option (List (Str × Data))
  | [] => some []
  | (name, value) :: fields =>
    (visible value).bind fun v => (visibleFields fields).map ((name, v) :: ·)

end

variable {showReal : FloatBits → Str}

mutual

theorem toJson_visible : (value : Data) → toJson showReal value = (visible value).bind (toJson showReal)
  | .real x => by
    by_cases hx : x.isFinite
    · simp [visible, hx]
    · have hnan : (FloatBits.single 0x7FC00000#32).isFinite = false := by decide
      simp [visible, toJson, hx, hnan]
  | .path bytes => by
    cases h : pathText bytes <;> simp [visible, toJson, h]
  | .some value => by
    rw [toJson, toJson_visible value, visible, Option.bind_map]
    rfl
  | .seq items => by
    rw [toJson, itemsJson_visible items, visible, Option.bind_map, Option.map_bind]
    rfl
  | .map entries => by
    rw [toJson, fieldsJson_visible entries, visible, Option.bind_map, Option.map_bind]
    rfl
  | .struct fields => by
    rw [toJson, fieldsJson_visible fields, visible, Option.bind_map, Option.map_bind]
    rfl
  | .tagged tag name fields => by
    rw [toJson, fieldsJson_visible fields, visible, Option.bind_map, Option.map_bind]
    rfl
  | .bool b | .int n | .text s | .none | .unit name => rfl

theorem itemsJson_visible : (items : List Data) →
    itemsJson showReal items = (visibleItems items).bind (itemsJson showReal)
  | [] => rfl
  | value :: items => by
    rw [itemsJson, toJson_visible value, itemsJson_visible items, visibleItems]
    cases visible value <;> cases visibleItems items <;> simp [itemsJson]

theorem fieldsJson_visible : (fields : List (Str × Data)) →
    fieldsJson showReal fields = (visibleFields fields).bind (fieldsJson showReal)
  | [] => rfl
  | (name, value) :: fields => by
    rw [fieldsJson, toJson_visible value, fieldsJson_visible fields, visibleFields]
    cases visible value <;> cases visibleFields fields <;> simp [fieldsJson]

end

theorem showNat_inj {m n : Nat} (h : showNat m = showNat n) : m = n := by
  have hread := congrArg (Nat.ofDigitChars 10 · 0) h
  simpa [showNat, Nat.ofDigitChars_ten_toDigits] using hread

theorem showNat_digits (n : Nat) : ∀ c ∈ showNat n, c.isDigit := fun _ hc =>
  Nat.isDigit_of_mem_toDigits (by decide) (by decide) hc

theorem showInt_inj {m n : Int} (h : showInt m = showInt n) : m = n := by
  have hsign (a b : Nat) : '-' :: showNat a ≠ showNat b := by
    intro hab
    have hdigit := showNat_digits b '-' (hab ▸ List.mem_cons_self)
    exact absurd hdigit (by decide)
  unfold showInt at h
  split at h <;> split at h
  · have habs := showNat_inj (List.tail_eq_of_cons_eq h)
    omega
  · exact absurd h (hsign _ _)
  · exact absurd h.symm (hsign _ _)
  · have habs := showNat_inj h
    omega

theorem numberText_showNat (n : Nat) : numberText (showNat n) := by
  have hall : ∀ c ∈ showNat n, numberChar c := by
    intro c hc
    simp [numberChar, showNat_digits n c hc]
  have hne : showNat n ≠ [] := Nat.toDigits_ne_nil
  simpa [numberText, hne] using hall

theorem numberText_showInt (n : Int) : numberText (showInt n) := by
  unfold showInt
  split
  · have hrest := numberText_showNat n.natAbs
    simp only [numberText, Bool.and_eq_true] at hrest
    simp [numberText, numberChar, hrest.2]
  · exact numberText_showNat _

theorem pathText_inj {p q : List UInt8} {s : Str} (hp : pathText p = some s)
    (hq : pathText q = some s) : p = q := by
  have hbytes {r : List UInt8} (hr : pathText r = some s) :
      r = (String.ofList s).toByteArray.data.toList := by
    obtain ⟨t, ht, rfl⟩ := Option.map_eq_some_iff.mp hr
    rw [String.fromUTF8?] at ht
    split at ht
    · obtain rfl := Option.some.inj ht
      simp [String.fromUTF8]
    · cases ht
  rw [hbytes hp, hbytes hq]

theorem toJson_ne_null {shape : Shape} {value : Data}
    (hfits : fits shape value) (hnullable : ¬ shape.nullable) :
    toJson showReal value ≠ some .null := by
  cases value with
  | bool b => simp [toJson]
  | int n => simp [toJson]
  | real x => cases shape <;> simp [fits, Shape.nullable] at hfits hnullable
  | text s => simp [toJson]
  | path bytes => simp [toJson]
  | none => cases shape <;> simp [fits, Shape.nullable] at hfits hnullable
  | some value => cases shape <;> simp [fits, Shape.nullable] at hfits hnullable
  | seq items => simp [toJson]
  | map entries => simp [toJson]
  | struct fields => simp [toJson]
  | unit name => simp [toJson]
  | tagged tag name fields => simp [toJson]

/-- Two values of one type. -/
def Alike (v w : Data) : Prop := ∃ shape, fits shape v ∧ fits shape w

theorem alike_fields {shapes : List (Str × Shape)} {fs gs : List (Str × Data)}
    (hfs : fitsFields shapes fs) (hgs : fitsFields shapes gs) :
    List.Forall₂ (fun f g => Alike f.2 g.2) fs gs := by
  induction shapes generalizing fs gs with
  | nil =>
    cases fs <;> cases gs <;> simp only [fitsFields, Bool.false_eq_true] at hfs hgs
    exact .nil
  | cons shape shapes ih =>
    cases fs with
    | nil => simp [fitsFields] at hfs
    | cons f fs =>
      cases gs with
      | nil => simp [fitsFields] at hgs
      | cons g gs =>
        simp only [fitsFields, Bool.and_eq_true] at hfs hgs
        exact .cons ⟨shape.2, hfs.1.2, hgs.1.2⟩ (ih hfs.2 hgs.2)

theorem alike_variant {variants : List (Str × List (Str × Shape))} {name : Str}
    {fs gs : List (Str × Data)} (hfs : fitsVariant variants name fs)
    (hgs : fitsVariant variants name gs) : List.Forall₂ (fun f g => Alike f.2 g.2) fs gs := by
  induction variants with
  | nil => simp [fitsVariant] at hfs
  | cons variant variants ih =>
    simp only [fitsVariant] at hfs hgs
    split at hfs
    · rename_i hname
      rw [if_pos hname] at hgs
      exact alike_fields hfs hgs
    · rename_i hname
      rw [if_neg hname] at hgs
      exact ih hfs hgs

theorem alike_all {α : Type*} {shape : Shape} {read : α → Data} {fs gs : List α}
    (hlength : fs.length = gs.length) (hfs : fs.all (fits shape <| read ·))
    (hgs : gs.all (fits shape <| read ·)) :
    List.Forall₂ (fun f g => Alike (read f) (read g)) fs gs := by
  induction fs generalizing gs with
  | nil =>
    obtain rfl := List.length_eq_zero_iff.mp hlength.symm
    exact .nil
  | cons f fs ih =>
    cases gs with
    | nil => cases hlength
    | cons g gs =>
      simp only [List.all_cons, Bool.and_eq_true] at hfs hgs
      exact .cons ⟨shape, hfs.1, hgs.1⟩ (ih (Nat.succ.inj hlength) hfs.2 hgs.2)

theorem alike_real (hprints : Prints showReal) {x : FloatBits} {w : Data} (h : Alike (.real x) w) :
    ∃ y, w = .real y ∧ (x.isFinite → y.isFinite → showReal x = showReal y → x = y) := by
  obtain ⟨shape, hv, hw⟩ := h
  cases x with
  | single a =>
    cases shape <;> simp only [fits, Bool.false_eq_true] at hv
    cases w with
    | real y =>
      cases y with
      | single b => exact ⟨_, rfl, fun ha hb h => congrArg _ (hprints.single a b ha hb h)⟩
      | double b => simp [fits] at hw
    | _ => simp [fits] at hw
  | double a =>
    cases shape <;> simp only [fits, Bool.false_eq_true] at hv
    cases w with
    | real y =>
      cases y with
      | single b => simp [fits] at hw
      | double b => exact ⟨_, rfl, fun ha hb h => congrArg _ (hprints.double a b ha hb h)⟩
    | _ => simp [fits] at hw

theorem length_itemsJson {items : List Data} {json : List Json.Value}
    (h : itemsJson showReal items = some json) : items.length = json.length := by
  induction items generalizing json with
  | nil => cases h; rfl
  | cons value items ih =>
    obtain ⟨v, -, hrest⟩ := Option.bind_eq_some_iff.mp h
    obtain ⟨vs, hvs, rfl⟩ := Option.map_eq_some_iff.mp hrest
    exact congrArg (· + 1) (ih hvs)

theorem length_fieldsJson {fields : List (Str × Data)} {json : List (Str × Json.Value)}
    (h : fieldsJson showReal fields = some json) : fields.length = json.length := by
  induction fields generalizing json with
  | nil => cases h; rfl
  | cons field fields ih =>
    obtain ⟨v, -, hrest⟩ := Option.bind_eq_some_iff.mp h
    obtain ⟨vs, hvs, rfl⟩ := Option.map_eq_some_iff.mp hrest
    exact congrArg (· + 1) (ih hvs)

mutual

theorem visible_eq (hprints : Prints showReal) : (v w : Data) → {json : Json.Value} → Alike v w →
    toJson showReal v = some json → toJson showReal w = some json → visible v = visible w
  | .bool b, w, json, ⟨shape, hv, hw⟩, hjson, hjson' => by
    cases shape <;> simp only [fits, Bool.false_eq_true] at hv
    cases w <;> simp only [fits, Bool.false_eq_true] at hw
    simp only [toJson] at hjson hjson'
    grind
  | .int n, w, json, ⟨shape, hv, hw⟩, hjson, hjson' => by
    have hint : ∃ m, w = .int m := by
      cases shape <;> simp only [fits, Bool.false_eq_true] at hv
      · cases w <;> simp only [fits, Bool.false_eq_true] at hw
        exact ⟨_, rfl⟩
      · cases w <;> simp only [fits, Bool.false_eq_true] at hw
        exact ⟨_, rfl⟩
    obtain ⟨m, rfl⟩ := hint
    simp only [toJson, Option.some.injEq] at hjson hjson'
    rw [showInt_inj (Json.Value.number.inj (hjson.trans hjson'.symm))]
  | .real x, w, json, ⟨shape, hv, hw⟩, hjson, hjson' => by
    obtain ⟨y, rfl, hinj⟩ := alike_real hprints ⟨shape, hv, hw⟩
    simp only [toJson, Option.some.injEq] at hjson hjson'
    rw [← hjson'] at hjson
    by_cases hx : x.isFinite
    · by_cases hy : y.isFinite
      · simp only [hx, hy, if_true, Json.Value.number.injEq] at hjson
        rw [hinj hx hy hjson]
      · simp [hx, hy] at hjson
    · by_cases hy : y.isFinite
      · simp [hx, hy] at hjson
      · simp [visible, hx, hy]
  | .text s, w, json, ⟨shape, hv, hw⟩, hjson, hjson' => by
    cases shape <;> simp only [fits, Bool.false_eq_true] at hv
    cases w <;> simp only [fits, Bool.false_eq_true] at hw
    simp only [toJson] at hjson hjson'
    grind
  | .path bytes, w, json, ⟨shape, hv, hw⟩, hjson, hjson' => by
    cases shape <;> simp only [fits, Bool.false_eq_true] at hv
    cases w <;> simp only [fits, Bool.false_eq_true] at hw
    obtain ⟨s, hs, rfl⟩ := Option.map_eq_some_iff.mp hjson
    obtain ⟨t, ht, hst⟩ := Option.map_eq_some_iff.mp hjson'
    rw [Json.Value.string.injEq] at hst
    subst hst
    rw [pathText_inj hs ht]
  | .none, w, json, ⟨shape, hv, hw⟩, hjson, hjson' => by
    cases shape <;> simp only [fits, Bool.false_eq_true] at hv
    cases w <;> simp only [fits, Bool.false_eq_true, Bool.and_eq_true, Bool.not_eq_true'] at hw
    · rfl
    · cases hjson
      rw [toJson] at hjson'
      exact absurd hjson' (toJson_ne_null hw.2 (by simp [hw.1]))
  | .some value, w, json, ⟨shape, hv, hw⟩, hjson, hjson' => by
    cases shape <;> simp only [fits, Bool.false_eq_true, Bool.and_eq_true, Bool.not_eq_true'] at hv
    cases w <;> simp only [fits, Bool.false_eq_true, Bool.and_eq_true, Bool.not_eq_true'] at hw
    · cases hjson'
      rw [toJson] at hjson
      exact absurd hjson (toJson_ne_null hv.2 (by simp [hv.1]))
    · rename_i inner value'
      rw [visible, visible, visible_eq hprints value value' ⟨inner, hv.2, hw.2⟩ hjson hjson']
  | .seq items, w, json, ⟨shape, hv, hw⟩, hjson, hjson' => by
    cases shape <;> simp only [fits, Bool.false_eq_true] at hv
    cases w <;> simp only [fits, Bool.false_eq_true] at hw
    rename_i items'
    obtain ⟨vs, hvs, rfl⟩ := Option.map_eq_some_iff.mp hjson
    obtain ⟨ws, hws, hjson⟩ := Option.map_eq_some_iff.mp hjson'
    rw [Json.Value.array.injEq] at hjson
    subst hjson
    have halike := alike_all ((length_itemsJson hvs).trans (length_itemsJson hws).symm) hv hw
    rw [visible, visible, visibleItems_eq hprints items items' halike hvs hws]
  | .map entries, w, json, ⟨shape, hv, hw⟩, hjson, hjson' => by
    cases shape <;> simp only [fits, Bool.false_eq_true, Bool.and_eq_true] at hv
    cases w <;> simp only [fits, Bool.false_eq_true, Bool.and_eq_true] at hw
    rename_i entries'
    obtain ⟨vs, hvs, rfl⟩ := Option.map_eq_some_iff.mp hjson
    obtain ⟨ws, hws, hjson⟩ := Option.map_eq_some_iff.mp hjson'
    rw [Json.Value.object.injEq] at hjson
    subst hjson
    have halike := alike_all ((length_fieldsJson hvs).trans (length_fieldsJson hws).symm) hv.2 hw.2
    rw [visible, visible, visibleFields_eq hprints entries entries' halike hvs hws]
  | .struct fields, w, json, ⟨shape, hv, hw⟩, hjson, hjson' => by
    cases shape <;> simp only [fits, Bool.false_eq_true] at hv
    cases w <;> simp only [fits, Bool.false_eq_true] at hw
    rename_i fields'
    obtain ⟨vs, hvs, rfl⟩ := Option.map_eq_some_iff.mp hjson
    obtain ⟨ws, hws, hjson⟩ := Option.map_eq_some_iff.mp hjson'
    rw [Json.Value.object.injEq] at hjson
    subst hjson
    rw [visible, visible, visibleFields_eq hprints fields fields' (alike_fields hv hw) hvs hws]
  | .unit name, w, json, ⟨shape, hv, hw⟩, hjson, hjson' => by
    cases shape <;> simp only [fits, Bool.false_eq_true] at hv
    cases w <;> simp only [fits, Bool.false_eq_true] at hw
    simp only [toJson] at hjson hjson'
    grind
  | .tagged tag name fields, w, json, ⟨shape, hv, hw⟩, hjson, hjson' => by
    cases shape <;> simp only [fits, Bool.false_eq_true, Bool.and_eq_true, decide_eq_true_eq] at hv
    cases w <;> simp only [fits, Bool.false_eq_true, Bool.and_eq_true, decide_eq_true_eq] at hw
    rename_i tag' name' fields'
    obtain ⟨vs, hvs, rfl⟩ := Option.map_eq_some_iff.mp hjson
    obtain ⟨ws, hws, hjson⟩ := Option.map_eq_some_iff.mp hjson'
    simp only [Json.Value.object.injEq, List.cons.injEq, Prod.mk.injEq,
      Json.Value.string.injEq] at hjson
    obtain ⟨⟨rfl, rfl⟩, rfl⟩ := hjson
    have halike := alike_variant hv.2 hw.2
    rw [visible, visible, visibleFields_eq hprints fields fields' halike hvs hws]

theorem visibleItems_eq (hprints : Prints showReal) : (vs ws : List Data) →
    {json : List Json.Value} → List.Forall₂ Alike vs ws → itemsJson showReal vs = some json →
      itemsJson showReal ws = some json → visibleItems vs = visibleItems ws
  | [], ws, json, halike, hjson, hjson' => by
    cases halike
    rfl
  | v :: vs, ws, json, halike, hjson, hjson' => by
    cases halike
    rename_i w ws hvw hrest
    obtain ⟨j, hj, hmap⟩ := Option.bind_eq_some_iff.mp hjson
    obtain ⟨js, hjs, rfl⟩ := Option.map_eq_some_iff.mp hmap
    obtain ⟨j', hj', hmap'⟩ := Option.bind_eq_some_iff.mp hjson'
    obtain ⟨js', hjs', heq⟩ := Option.map_eq_some_iff.mp hmap'
    obtain ⟨rfl, rfl⟩ := List.cons.inj heq
    rw [visibleItems, visibleItems, visible_eq hprints v w hvw hj hj',
      visibleItems_eq hprints vs ws hrest hjs hjs']

theorem visibleFields_eq (hprints : Prints showReal) : (fs gs : List (Str × Data)) →
    {json : List (Str × Json.Value)} → List.Forall₂ (fun f g => Alike f.2 g.2) fs gs →
      fieldsJson showReal fs = some json → fieldsJson showReal gs = some json →
        visibleFields fs = visibleFields gs
  | [], gs, json, halike, hjson, hjson' => by
    cases halike
    rfl
  | (name, v) :: fs, gs, json, halike, hjson, hjson' => by
    cases halike
    rename_i g gs hvw hrest
    obtain ⟨j, hj, hmap⟩ := Option.bind_eq_some_iff.mp hjson
    obtain ⟨js, hjs, rfl⟩ := Option.map_eq_some_iff.mp hmap
    obtain ⟨j', hj', hmap'⟩ := Option.bind_eq_some_iff.mp hjson'
    obtain ⟨js', hjs', heq⟩ := Option.map_eq_some_iff.mp hmap'
    simp only [List.cons.injEq, Prod.mk.injEq] at heq
    obtain ⟨⟨hname, rfl⟩, rfl⟩ := heq
    rw [visibleFields, visibleFields, visible_eq hprints v g.2 hvw hj hj',
      visibleFields_eq hprints fs gs hrest hjs hjs', hname]

end

mutual

theorem toJson_of_visible (hprints : Prints showReal) : (value : Data) → {shown : Data} →
    visible value = some shown → ∃ json, toJson showReal value = some json ∧ printable json
  | .bool b, shown, h => ⟨_, rfl, rfl⟩
  | .int n, shown, h => ⟨_, rfl, numberText_showInt n⟩
  | .real x, shown, h => by
    refine ⟨_, rfl, ?_⟩
    split
    · rename_i hx
      exact hprints.number x hx
    · rfl
  | .text s, shown, h => ⟨_, rfl, rfl⟩
  | .path bytes, shown, h => by
    obtain ⟨s, hs, -⟩ := Option.map_eq_some_iff.mp h
    exact ⟨_, by rw [toJson, hs]; rfl, rfl⟩
  | .none, shown, h => ⟨_, rfl, rfl⟩
  | .some value, shown, h => by
    obtain ⟨shown, hshown, -⟩ := Option.map_eq_some_iff.mp h
    exact toJson_of_visible hprints value hshown
  | .seq items, shown, h => by
    obtain ⟨shown, hshown, -⟩ := Option.map_eq_some_iff.mp h
    obtain ⟨json, hjson, hprintable⟩ := itemsJson_of_visible hprints items hshown
    exact ⟨.array json, by rw [toJson, hjson]; rfl, by rwa [printable]⟩
  | .map entries, shown, h => by
    obtain ⟨shown, hshown, -⟩ := Option.map_eq_some_iff.mp h
    obtain ⟨json, hjson, hprintable⟩ := fieldsJson_of_visible hprints entries hshown
    exact ⟨.object json, by rw [toJson, hjson]; rfl, by rwa [printable]⟩
  | .struct fields, shown, h => by
    obtain ⟨shown, hshown, -⟩ := Option.map_eq_some_iff.mp h
    obtain ⟨json, hjson, hprintable⟩ := fieldsJson_of_visible hprints fields hshown
    exact ⟨.object json, by rw [toJson, hjson]; rfl, by rwa [printable]⟩
  | .unit name, shown, h => ⟨_, rfl, rfl⟩
  | .tagged tag name fields, shown, h => by
    obtain ⟨shown, hshown, -⟩ := Option.map_eq_some_iff.mp h
    obtain ⟨json, hjson, hprintable⟩ := fieldsJson_of_visible hprints fields hshown
    exact ⟨.object ((tag, .string name) :: json), by rw [toJson, hjson]; rfl,
      by simp [printable, printableFields, hprintable]⟩

theorem itemsJson_of_visible (hprints : Prints showReal) : (items : List Data) →
    {shown : List Data} → visibleItems items = some shown →
      ∃ json, itemsJson showReal items = some json ∧ printableAll json
  | [], shown, h => ⟨[], rfl, rfl⟩
  | value :: items, shown, h => by
    obtain ⟨v, hv, hrest⟩ := Option.bind_eq_some_iff.mp h
    obtain ⟨vs, hvs, -⟩ := Option.map_eq_some_iff.mp hrest
    obtain ⟨json, hjson, hprintable⟩ := toJson_of_visible hprints value hv
    obtain ⟨rest, hrest, hall⟩ := itemsJson_of_visible hprints items hvs
    exact ⟨json :: rest, by rw [itemsJson, hjson, hrest]; rfl,
      by rw [printableAll, hprintable, hall]; rfl⟩

theorem fieldsJson_of_visible (hprints : Prints showReal) : (fields : List (Str × Data)) →
    {shown : List (Str × Data)} → visibleFields fields = some shown →
      ∃ json, fieldsJson showReal fields = some json ∧ printableFields json
  | [], shown, h => ⟨[], rfl, rfl⟩
  | (name, value) :: fields, shown, h => by
    obtain ⟨v, hv, hrest⟩ := Option.bind_eq_some_iff.mp h
    obtain ⟨vs, hvs, -⟩ := Option.map_eq_some_iff.mp hrest
    obtain ⟨json, hjson, hprintable⟩ := toJson_of_visible hprints value hv
    obtain ⟨rest, hrest, hall⟩ := fieldsJson_of_visible hprints fields hvs
    exact ⟨(name, json) :: rest, by rw [fieldsJson, hjson, hrest]; rfl,
      by rw [printableFields, hprintable, hall]; rfl⟩

end

theorem printable_toJson (hprints : Prints showReal) {value : Data} {json : Json.Value}
    (h : toJson showReal value = some json) : printable json := by
  cases hvisible : visible value with
  | none => rw [toJson_visible, hvisible] at h; cases h
  | some shown =>
    obtain ⟨json', hjson', hprintable⟩ := toJson_of_visible hprints value hvisible
    rw [h] at hjson'
    exact Option.some.inj hjson' ▸ hprintable

/-- Two values of one type have one text exactly when they show the same. -/
theorem jsonText_eq_iff (hprints : Prints showReal) {v w : Data} (h : Alike v w) :
    jsonText showReal v = jsonText showReal w ↔ visible v = visible w := by
  constructor
  · intro htext
    cases hv : toJson showReal v with
    | none =>
      have hw : toJson showReal w = none := by
        rw [jsonText, hv, Option.map_none] at htext
        exact Option.map_eq_none_iff.mp htext.symm
      have hinvisible {u : Data} (hu : toJson showReal u = none) : visible u = none := by
        by_contra hne
        obtain ⟨shown, hshown⟩ := Option.ne_none_iff_exists'.mp hne
        obtain ⟨json, hjson, -⟩ := toJson_of_visible hprints u hshown
        rw [hu] at hjson
        cases hjson
      rw [hinvisible hv, hinvisible hw]
    | some json =>
      rw [jsonText, hv, Option.map_some] at htext
      obtain ⟨json', hw, hjson⟩ := Option.map_eq_some_iff.mp htext.symm
      obtain rfl := toText_injective (printable_toJson hprints hw) (printable_toJson hprints hv) hjson
      exact visible_eq hprints v w h hv hw
  · intro hvisible
    rw [jsonText, jsonText, toJson_visible v, toJson_visible w, hvisible]

/-- Types whose values show all they are. -/
def Shape.shows : Shape → Bool
  | .f32 => false
  | .f64 => false
  | .path => false
  | _ => true

mutual

theorem visible_eq_self : (value : Data) → Built Shape.shows value → visible value = some value
  | .real x, ⟨shape, hfits, hall⟩ => by
    cases shape <;> cases x <;> simp_all [fits, Shape.all, Shape.shows]
  | .path bytes, ⟨shape, hfits, hall⟩ => by
    cases shape <;> simp_all [fits, Shape.all, Shape.shows]
  | .some value, h => by rw [visible, visible_eq_self value h.some]; rfl
  | .seq items, h => by rw [visible, visibleItems_eq_self items h.seq]; rfl
  | .map entries, h => by rw [visible, visibleFields_eq_self entries h.map]; rfl
  | .struct fields, h => by rw [visible, visibleFields_eq_self fields h.struct]; rfl
  | .tagged tag name fields, h => by rw [visible, visibleFields_eq_self fields h.tagged]; rfl
  | .bool b, _ | .int n, _ | .text s, _ | .none, _ | .unit name, _ => rfl

theorem visibleItems_eq_self : (items : List Data) → (∀ value ∈ items, Built Shape.shows value) →
    visibleItems items = some items
  | [], _ => rfl
  | value :: items, h => by
    rw [List.forall_mem_cons] at h
    rw [visibleItems, visible_eq_self value h.1, visibleItems_eq_self items h.2]
    rfl

theorem visibleFields_eq_self : (fields : List (Str × Data)) →
    (∀ field ∈ fields, Built Shape.shows field.2) → visibleFields fields = some fields
  | [], _ => rfl
  | (name, value) :: fields, h => by
    rw [List.forall_mem_cons] at h
    rw [visibleFields, visible_eq_self value h.1, visibleFields_eq_self fields h.2]
    rfl

end

end Visible

end Clawreform.Lib.SerdeJson
