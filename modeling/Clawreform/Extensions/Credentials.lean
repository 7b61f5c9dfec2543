import Clawreform.Cli.Dotenv
import Clawreform.Extensions.Vault

namespace Clawreform.Extensions.Credentials

open Clawreform.Lib.Text Clawreform.Lib.Splitting Clawreform.Lib.Trimming Clawreform.Lib.Table
open Clawreform.Cli.Dotenv (Env Readable filterMap_writeEnvFile keyed_of_mem
  lookup_readEnvFile needsQuotes needsQuotes_of_quote pairs_writeEnvFile readEnvFile
  readable_insert shown trim_entryLine unquote unquote_shown wrapped writeEnvFile)
open Clawreform.Extensions.Vault (CredentialVault)

abbrev Entries := Std.ExtTreeMap Str Str

section Reading

/-- The slice panics when the text is one quote. -/
def stripQuotes (value : Str) : Option Str :=
  if wrapped '"' value || wrapped '\'' value then
    if 2 ≤ byteLen value then some value.tail.dropLast else none
  else some value

/-- The name and the value in a trimmed line, with the quotes still there. -/
def readLine (line : Str) : Option (Str × Str) :=
  if line = [] ∨ line.head? = some '#' then none
  else (cut ['='] line).map fun p => (trim p.1, trim p.2)

def rawPairs (content : Str) : List (Str × Str) := ((lines content).map trim).filterMap readLine

def loadPairs (map : Entries) (ps : List (Str × Str)) : Option Entries :=
  ps.foldlM (fun map p => (stripQuotes p.2).map (map.insert p.1)) map

/-- The file is `none` when it is not there or cannot be read. -/
def loadDotenv (file : Option Str) : Option Entries :=
  match file with
  | none => some ∅
  | some content => loadPairs ∅ (rawPairs content)

end Reading

section Agreeing

variable {value content : Str} {ps : List (Str × Str)} {map map' : Entries}

/-- A text in quotes is one quote or has two of them. -/
theorem one_quote_iff {q : Char} (hq : q.utf8Size = 1) (h : wrapped q value = true) :
    ¬ 2 ≤ byteLen value ↔ value = [q] := by
  rw [wrapped, Bool.and_eq_true, decide_eq_true_eq, decide_eq_true_eq] at h
  obtain ⟨rest, rfl⟩ := List.head?_eq_some_iff.mp h.1
  constructor
  · intro hlen
    cases rest with
    | nil => rfl
    | cons d rest =>
      have hpos := d.utf8Size_pos
      simp only [byteLen_cons, hq] at hlen
      omega
  · intro heq
    cases heq
    simp [hq]

/-- Both readers take the same quotes away, but one of them panics at a single quote. -/
theorem stripQuotes_eq (value : Str) : stripQuotes value =
    if value = ['"'] ∨ value = ['\''] then none else some (unquote value) := by
  have hdouble : wrapped '"' ['"'] = true := rfl
  have hsingle : wrapped '\'' ['\''] = true := rfl
  rw [stripQuotes, unquote]
  by_cases hwrapped : (wrapped '"' value || wrapped '\'' value) = true
  · rw [if_pos hwrapped, hwrapped, Bool.true_and]
    by_cases hlen : 2 ≤ byteLen value
    · have hnot : ¬ (value = ['"'] ∨ value = ['\'']) := by
        rintro (rfl | rfl)
        · exact (one_quote_iff rfl hdouble).mpr rfl hlen
        · exact (one_quote_iff rfl hsingle).mpr rfl hlen
      rw [if_pos hlen, if_neg hnot, if_pos (decide_eq_true hlen)]
    · have hone : value = ['"'] ∨ value = ['\''] :=
        (Bool.or_eq_true_iff.mp hwrapped).imp (fun h => (one_quote_iff rfl h).mp hlen)
          fun h => (one_quote_iff rfl h).mp hlen
      rw [if_neg hlen, if_pos hone]
  · have hnot : ¬ (value = ['"'] ∨ value = ['\'']) := by
      rintro (rfl | rfl)
      · exact hwrapped rfl
      · exact hwrapped rfl
    rw [if_neg hwrapped, if_neg hnot, if_neg (by simp [hwrapped])]

/-- Some value is nothing but a quote. -/
def Panics (ps : List (Str × Str)) : Prop := ∃ p ∈ ps, p.2 = ['"'] ∨ p.2 = ['\'']

theorem insertAll_cons_or (p : Str × Str) (ps : List (Str × Str)) (map : Entries) (key : Str) :
    (insertAll (p :: ps) key).or map[key]? =
      (insertAll ps key).or (map.insert p.1 p.2)[key]? := by
  have hsingle := insertAll_concat [] p key
  rw [List.nil_append] at hsingle
  rw [← List.singleton_append, insertAll_append, hsingle, Option.or_assoc,
    Std.ExtTreeMap.getElem?_insert]
  congr 1
  by_cases hkey : key = p.1
  · simp [hkey]
  · rw [if_neg hkey, if_neg (by simpa [Std.compare_eq_iff_eq] using Ne.symm hkey)]
    rfl

theorem loadPairs_eq (ps : List (Str × Str)) (map : Entries) :
    (loadPairs map ps = none ↔ Panics ps) ∧ ∀ map', loadPairs map ps = some map' → ∀ key,
      map'[key]? = (insertAll (ps.map fun p => (p.1, unquote p.2)) key).or map[key]? := by
  induction ps generalizing map with
  | nil =>
    have hload : loadPairs map [] = some map := rfl
    rw [hload]
    refine ⟨⟨fun h => (Option.some_ne_none _ h).elim, fun ⟨p, hp, _⟩ => by cases hp⟩, ?_⟩
    intro map' h key
    rw [← Option.some_inj.mp h]
    rfl
  | cons p ps ih =>
    have hcons : loadPairs map (p :: ps) =
        ((stripQuotes p.2).map (map.insert p.1)).bind (loadPairs · ps) := List.foldlM_cons
    rw [hcons, stripQuotes_eq]
    by_cases hone : p.2 = ['"'] ∨ p.2 = ['\'']
    · rw [if_pos hone]
      exact ⟨⟨fun _ => ⟨p, List.mem_cons_self, hone⟩, fun _ => rfl⟩, fun map' h => by cases h⟩
    · rw [if_neg hone, Option.map_some, Option.bind_some]
      obtain ⟨hnone, hsome⟩ := ih (map.insert p.1 (unquote p.2))
      refine ⟨?_, fun map' h key => ?_⟩
      · rw [hnone, Panics, Panics, List.exists_mem_cons_iff, or_iff_right hone]
      · rw [hsome map' h, List.map_cons, insertAll_cons_or]

/-- What a file that the other program wrote is read as. -/
theorem rawPairs_writeEnvFile {entries : Entries} (h : Readable entries) :
    rawPairs (writeEnvFile entries) = entries.toList.map fun p => (p.1, shown p.2) := by
  rw [rawPairs, filterMap_writeEnvFile h (by decide), ← List.filterMap_eq_map]
  refine List.filterMap_congr fun p hp => ?_
  have hkey := keyed_of_mem h hp
  obtain ⟨w, hline, hw⟩ := trim_entryLine p.2 hkey
  rw [hline, readLine, if_neg (hkey.not_skipped w), cut_eq hkey.noEq, Option.map_some,
    hkey.trimmed, hw]
  rfl

theorem shown_eq_quote_iff : shown value = ['"'] ∨ shown value = ['\''] ↔
    needsQuotes value = false ∧ trim value = ['\''] := by
  rw [shown]
  by_cases hquotes : needsQuotes value = true
  · simp [hquotes]
  · have hnot : trim value ≠ ['"'] := by
      intro heq
      have hmem : '"' ∈ trim value := by simp [heq]
      exact hquotes (needsQuotes_of_quote ((trim_isInfix value).subset hmem))
    rw [if_neg hquotes, or_iff_right hnot]
    simp [hquotes]

/-- A file that the other program wrote is read by both alike, except that this reader panics when
a value is a single quote. -/
theorem loadDotenv_writeEnvFile {entries : Entries} (h : Readable entries) :
    (loadDotenv (some (writeEnvFile entries)) = none ↔
      ∃ key value : Str, entries[key]? = some value ∧ needsQuotes value = false ∧
        trim value = ['\'']) ∧
    ∀ map, loadDotenv (some (writeEnvFile entries)) = some map →
      map = readEnvFile (some (writeEnvFile entries)) := by
  obtain ⟨hnone, hsome⟩ := loadPairs_eq (rawPairs (writeEnvFile entries)) ∅
  refine ⟨?_, fun map hmap => ?_⟩
  · rw [loadDotenv, hnone, Panics, rawPairs_writeEnvFile h]
    constructor
    · rintro ⟨p, hp, hone⟩
      obtain ⟨q, hq, rfl⟩ := List.mem_map.mp hp
      exact ⟨q.1, q.2, Std.ExtTreeMap.mem_toList_iff_getElem?_eq_some.mp hq,
        shown_eq_quote_iff.mp hone⟩
    · rintro ⟨key, value, hkey, hone⟩
      have hmem := Std.ExtTreeMap.mem_toList_iff_getElem?_eq_some.mpr hkey
      exact ⟨_, List.mem_map_of_mem hmem, shown_eq_quote_iff.mpr hone⟩
  · apply Std.ExtTreeMap.ext_getElem?
    intro key
    have hempty : (∅ : Entries)[key]? = none := Std.ExtTreeMap.getElem?_empty
    rw [hsome map hmap, hempty, Option.or_none, lookup_readEnvFile, pairs_writeEnvFile h,
      rawPairs_writeEnvFile h, List.map_map]
    refine congrArg (insertAll · key) (List.map_congr_left fun p _ => ?_)
    exact congrArg (Prod.mk p.1) (unquote_shown p.2)

theorem loadDotenv_writeEnvFile_quote :
    loadDotenv (some (writeEnvFile ((∅ : Entries).insert ['K'] ['\'']))) = none := by
  have hread : Readable ((∅ : Entries).insert ['K'] ['\'']) :=
    readable_insert (fun key value h => by simp at h)
      ⟨by decide, by decide, by decide, by decide, by decide⟩ (by decide)
  exact (loadDotenv_writeEnvFile hread).1.mpr
    ⟨['K'], ['\''], Std.ExtTreeMap.getElem?_insert_self, by decide, by decide⟩

end Agreeing

section Resolving

structure CredentialResolver where
  vault : Option CredentialVault
  dotenv : Entries
  interactive : Bool

/-- A resolver on a file, that does not ask; none when reading the file panics. -/
def CredentialResolver.new (vault : Option CredentialVault) (file : Option Str) :
    Option CredentialResolver :=
  (loadDotenv file).map fun dotenv => ⟨vault, dotenv, false⟩

variable (r : CredentialResolver) (env : Env)

def fromVault (key : Str) : Option Str :=
  r.vault.bind fun vault => if vault.unlocked then vault.entries.lookup key else none

/-- The value of a name without a question. -/
def quietly (key : Str) : Option Str := (fromVault r key).or ((r.dotenv[key]?).or (env key))

/-- A line of the user: none when it cannot be read. After the last line only empty ones come. -/
def promptSecret (input : List (Option Str)) : Option Str × List (Option Str) :=
  match input with
  | [] => (none, [])
  | line :: input => (line.bind fun l => if trim l = [] then none else some (trim l), input)

def resolve (input : List (Option Str)) (key : Str) : Option Str × List (Option Str) :=
  match quietly r env key with
  | some value => (some value, input)
  | none => if r.interactive then promptSecret input else (none, input)

def hasCredential (key : Str) : Bool :=
  (fromVault r key).isSome || r.dotenv.contains key || (env key).isSome

def resolveAll (input : List (Option Str)) (keys : List Str) : Entries × List (Option Str) :=
  keys.foldl (fun acc key =>
    let answer := resolve r env acc.2 key
    (answer.1.elim acc.1 (acc.1.insert key), answer.2)) (∅, input)

def missingCredentials (keys : List Str) : List Str :=
  keys.filter fun key => ! hasCredential r env key

/-- What the user answers, when asked for some names in turn. -/
def answers (asked : List Str) (input : List (Option Str)) : List (Str × Str) :=
  (asked.zip input).filterMap fun p => (promptSecret [p.2]).1.map (Prod.mk p.1)

variable {r : CredentialResolver} {env : Env} {input : List (Option Str)} {keys : List Str}

theorem hasCredential_eq (key : Str) : hasCredential r env key = (quietly r env key).isSome := by
  simp [hasCredential, quietly, Bool.or_assoc]

theorem answers_nil (asked : List Str) : answers asked [] = [] := by
  rw [answers, List.zip_nil_right]
  rfl

theorem answers_cons (key : Str) (asked : List Str) (line : Option Str) (input : List (Option Str)) :
    answers (key :: asked) (line :: input) =
      ((promptSecret (line :: input)).1.map (Prod.mk key)).toList ++ answers asked input := by
  rw [answers, List.zip_cons_cons, List.filterMap_cons]
  have hline : (promptSecret [line]).1 = (promptSecret (line :: input)).1 := rfl
  rw [hline]
  cases (promptSecret (line :: input)).1 with
  | none => rfl
  | some value => rfl

theorem answers_concat (asked : List Str) (key : Str) (input : List (Option Str)) :
    answers (asked ++ [key]) input = answers asked input ++
      ((promptSecret (input.drop asked.length)).1.map (Prod.mk key)).toList := by
  induction asked generalizing input with
  | nil =>
    cases input with
    | nil => rfl
    | cons line input =>
      rw [List.nil_append, answers_cons]
      simp [answers]
  | cons other asked ih =>
    cases input with
    | nil =>
      rw [List.cons_append, answers_nil, answers_nil, List.drop_nil]
      rfl
    | cons line input =>
      rw [List.cons_append, answers_cons, answers_cons, ih, List.length_cons, List.drop_succ_cons,
        List.append_assoc]

theorem resolveAll_concat (key : Str) : resolveAll r env input (keys ++ [key]) =
    let answer := resolve r env (resolveAll r env input keys).2 key
    (answer.1.elim (resolveAll r env input keys).1 ((resolveAll r env input keys).1.insert key),
      answer.2) := List.foldl_concat ..

theorem promptSecret_snd (input : List (Option Str)) : (promptSecret input).2 = input.drop 1 := by
  cases input <;> rfl

theorem getElem?_elim_insert (map : Entries) (answer : Option Str) (key other : Str) :
    (answer.elim map (map.insert key))[other]? =
      if other = key then answer.or map[other]? else map[other]? := by
  cases answer with
  | none => simp
  | some value =>
    rw [Option.elim_some, Std.ExtTreeMap.getElem?_insert]
    simp only [Std.compare_eq_iff_eq, eq_comm (a := other), Option.some_or]

theorem insertAll_toList (answer : Option Str) (key other : Str) :
    insertAll (answer.map (Prod.mk key)).toList other = if other = key then answer else none := by
  cases answer with
  | none => simp
  | some value => simpa using insertAll_concat [] (key, value) other

/-- Every name without a credential takes a line of the user, and no other name does. -/
theorem resolveAll_eq (r : CredentialResolver) (env : Env) (input : List (Option Str))
    (keys : List Str) :
    (resolveAll r env input keys).2 =
      input.drop (if r.interactive then (missingCredentials r env keys).length else 0) ∧
    ∀ key, (resolveAll r env input keys).1[key]? =
      (if key ∈ keys then quietly r env key else none).or
        (if r.interactive then insertAll (answers (missingCredentials r env keys) input) key
          else none) := by
  induction keys using List.reverseRecOn with
  | nil =>
    refine ⟨by simp [resolveAll, missingCredentials], fun key => ?_⟩
    simp [resolveAll, missingCredentials, answers]
  | append_singleton keys last ih =>
    obtain ⟨hrest, hlookup⟩ := ih
    rw [resolveAll_concat]
    simp only [getElem?_elim_insert]
    cases hquiet : quietly r env last with
    | some value =>
      have hmissing : missingCredentials r env (keys ++ [last]) = missingCredentials r env keys := by
        simp [missingCredentials, hasCredential_eq, hquiet]
      simp only [resolve, hquiet, hmissing]
      refine ⟨hrest, fun key => ?_⟩
      by_cases hkey : key = last
      · simp [hkey, hquiet]
      · simp [hkey, hlookup]
    | none =>
      have hmissing : missingCredentials r env (keys ++ [last]) =
          missingCredentials r env keys ++ [last] := by
        simp [missingCredentials, hasCredential_eq, hquiet]
      simp only [resolve, hquiet, hmissing]
      cases hask : r.interactive with
      | false =>
        simp only [hask, Bool.false_eq_true, if_false, List.drop_zero] at hrest hlookup ⊢
        refine ⟨hrest, fun key => ?_⟩
        by_cases hkey : key = last
        · simp [hkey, hquiet, hlookup]
        · simp [hkey, hlookup]
      | true =>
        simp only [hask, if_true] at hrest hlookup ⊢
        rw [hrest, promptSecret_snd, List.drop_drop, List.length_append, answers_concat]
        refine ⟨rfl, fun key => ?_⟩
        rw [insertAll_append, insertAll_toList]
        by_cases hkey : key = last
        · simp [hkey, hquiet, hlookup]
        · simp [hkey, hlookup]

end Resolving

end Clawreform.Extensions.Credentials
