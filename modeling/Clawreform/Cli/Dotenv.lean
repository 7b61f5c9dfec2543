import Clawreform.Lib.Run
import Clawreform.Lib.Store
import Clawreform.Lib.Trimming
import Mathlib

namespace Clawreform.Cli.Dotenv

open Clawreform.Lib Clawreform.Lib.Text Clawreform.Lib.Splitting Clawreform.Lib.Trimming
open Clawreform.Lib.Run Clawreform.Lib.Table

abbrev Entries := Std.ExtTreeMap Str Str

section Files

/-- The text stands between two characters `q`, which may be the same one. -/
def wrapped (q : Char) (value : Str) : Bool := value.head? = some q && value.getLast? = some q

def unquote (value : Str) : Str :=
  if (wrapped '"' value || wrapped '\'' value) && 2 ≤ byteLen value then value.tail.dropLast
  else value

def parseEnvLine (line : Str) : Option (Str × Str) :=
  (cut ['='] line).bind fun p =>
    let key := trim p.1
    let value := trim p.2
    if key = [] then none else some (key, unquote value)

/-- What a trimmed line says, when it is neither empty nor a comment. -/
def readLine (trimmed : Str) : Option (Str × Str) :=
  if trimmed = [] ∨ trimmed.head? = some '#' then none else parseEnvLine trimmed

def pairs (content : Str) : List (Str × Str) := ((lines content).map trim).filterMap readLine

/-- The file is `none` when it cannot be read. -/
def readEnvFile (file : Option Str) : Entries :=
  match file with
  | none => ∅
  | some content => (pairs content).foldl (fun map p => map.insert p.1 p.2) ∅

def escape (value : Str) : Str := replaceText value ['"'] ['\\', '"']

def needsQuotes (value : Str) : Bool := ' ' ∈ value || '#' ∈ value || '"' ∈ value

def entryLine (p : Str × Str) : Str :=
  if needsQuotes p.2 then p.1 ++ '=' :: '"' :: (escape p.2 ++ ['"']) else p.1 ++ '=' :: p.2

def headerLines : List Str :=
  ["# clawREFORM by aegntic.ai environment — managed by `clawreform config set-key`".toList,
    "# Do not edit while the daemon is running.".toList, []]

def writeEnvFile (entries : Entries) : Str :=
  (headerLines ++ entries.toList.map entryLine).flatMap (· ++ ['\n'])

end Files

section Keys

/-- Variables of a process. -/
abbrev Env := Str → Option Str

/-- Names and values that the system refuses make the process panic. -/
def setVar (env : Env) (key value : Str) : Option Env :=
  if key = [] ∨ '=' ∈ key ∨ '\x00' ∈ key ∨ '\x00' ∈ value then none
  else some (Function.update env key (some value))

def removeVar (env : Env) (key : Str) : Option Env :=
  if key = [] ∨ '=' ∈ key ∨ '\x00' ∈ key then none else some (Function.update env key none)

/-- How the file system answers: after a write that failed anything may be left of the file. -/
inductive Disk where
  | fine
  | noHome
  | noDir (error : Str)
  | noWrite (error : Str) (left : Option Str)

structure World where
  file : Option Str
  env : Env

inductive Outcome where
  | ok
  | err (message : Str)
  | panicked
  deriving DecidableEq

/-- Rewrite the file with other entries, and then change the process. -/
def rewrite (w : World) (disk : Disk) (change : Entries → Entries) (set : Env → Option Env) :
    World × Outcome :=
  match disk with
  | .noHome => (w, .err "Could not determine home directory".toList)
  | .noWrite error left =>
    ({ w with file := left }, .err ("Failed to write .env file: ".toList ++ error))
  | _ =>
    let file := some (writeEnvFile (change (readEnvFile w.file)))
    match set w.env with
    | none => ({ w with file := file }, .panicked)
    | some env => (⟨file, env⟩, .ok)

def saveEnvKey (w : World) (disk : Disk) (key value : Str) : World × Outcome :=
  match disk with
  | .noDir error => (w, .err ("Failed to create directory: ".toList ++ error))
  | _ => rewrite w disk (·.insert key value) (setVar · key value)

/-- The directory is not made here. -/
def removeEnvKey (w : World) (disk : Disk) (key : Str) : World × Outcome :=
  rewrite w disk (·.erase key) (removeVar · key)

def listEnvKeys (w : World) : List Str := (readEnvFile w.file).keys

/-- A variable that is there already is not overwritten. -/
def loadPairs (env : Env) (ps : List (Str × Str)) : Option Env :=
  ps.foldlM (fun env p => if env p.1 = none then setVar env p.1 p.2 else some env) env

def loadEnvFile (env : Env) (file : Option Str) : Option Env :=
  match file with
  | none => some env
  | some content => loadPairs env (pairs content)

def loadDotenv (env : Env) (file secrets : Option Str) : Option Env :=
  (loadEnvFile env file).bind (loadEnvFile · secrets)

inductive Op where
  | save (disk : Disk) (key value : Str)
  | remove (disk : Disk) (key : Str)

def step (w : World) : Op → World × List Outcome
  | .save disk key value => ((saveEnvKey w disk key value).1, [(saveEnvKey w disk key value).2])
  | .remove disk key => ((removeEnvKey w disk key).1, [(removeEnvKey w disk key).2])

end Keys

section Reading

variable {key value content : Str} {entries : Entries} {p : Str × Str}

/-- A name that is read back from the line it is written in. -/
structure Keyed (key : Str) : Prop where
  ne : key ≠ []
  trimmed : trim key = key
  noEq : '=' ∉ key
  noBreak : '\n' ∉ key
  noComment : key.head? ≠ some '#'

/-- What a value becomes when it is written and read. -/
def readBack (value : Str) : Str :=
  if needsQuotes value then escape value else unquote (trim value)

theorem escape_eq (value : Str) :
    escape value = value.flatMap fun c => if c = '"' then ['\\', '"'] else [c] := by
  induction value with
  | nil => rfl
  | cons c value ih =>
    rw [List.flatMap_cons, ← ih]
    split
    · rename_i hc
      subst hc
      exact replaceText_of_start
    · rename_i hc
      exact replaceText_of_not (by simpa using Ne.symm hc)

theorem unquote_quoted (value : Str) : unquote ('"' :: (value ++ ['"'])) = value := by
  have hsize : '"'.utf8Size = 1 := rfl
  have hlen : 2 ≤ byteLen ('"' :: (value ++ ['"'])) := by
    rw [byteLen_cons, byteLen_append, byteLen_cons, hsize]
    omega
  have hwrapped : wrapped '"' ('"' :: (value ++ ['"'])) = true := by
    rw [wrapped, ← List.cons_append, List.getLast?_concat]
    rfl
  rw [unquote, hwrapped, Bool.true_or, Bool.true_and, if_pos (decide_eq_true hlen),
    List.tail_cons, List.dropLast_concat]

/-- A value as it stands in its line. -/
def shown (value : Str) : Str :=
  if needsQuotes value then '"' :: (escape value ++ ['"']) else trim value

theorem unquote_shown (value : Str) : unquote (shown value) = readBack value := by
  rw [shown, readBack]
  split
  · exact unquote_quoted _
  · rfl

theorem trim_entryLine (value : Str) (h : Keyed key) :
    ∃ w, trim (entryLine (key, value)) = key ++ '=' :: w ∧ trim w = shown value := by
  obtain ⟨c, rest, rfl⟩ := List.exists_cons_of_ne_nil h.ne
  have hc : isWhitespace c = false := head?_trim (c :: rest) c (by rw [h.trimmed]; rfl)
  have htrim (w : Str) : trim (c :: rest ++ '=' :: w) = c :: rest ++ '=' :: trimEnd w := by
    have hstart : trimStart (c :: rest ++ '=' :: w) = c :: rest ++ '=' :: w :=
      trimStart_eq_self fun d hd => by
        cases Option.mem_some_iff.mp hd
        exact hc
    rw [trim, hstart, trimEnd_append_cons (by decide)]
  rw [entryLine, shown]
  split
  · refine ⟨_, htrim _, ?_⟩
    rw [trim_trimEnd]
    apply trim_eq_self_of_ends
    · simp [isWhitespace]
    · rw [← List.cons_append, List.getLast?_concat]
      simp [isWhitespace]
  · exact ⟨_, htrim _, trim_trimEnd value⟩

theorem Keyed.not_skipped (h : Keyed key) (w : Str) :
    ¬ (key ++ '=' :: w = [] ∨ (key ++ '=' :: w).head? = some '#') := by
  obtain ⟨c, rest, rfl⟩ := List.exists_cons_of_ne_nil h.ne
  simpa using h.noComment

/-- A line is read as its name and what the value has become. -/
theorem readLine_entryLine (h : Keyed key) :
    readLine (trim (entryLine (key, value))) = some (key, readBack value) := by
  obtain ⟨w, hline, hw⟩ := trim_entryLine value h
  rw [hline, readLine, if_neg (h.not_skipped w), parseEnvLine, cut_eq h.noEq, Option.bind_some]
  simp only
  rw [h.trimmed, if_neg h.ne, hw, unquote_shown]

theorem length_escape (value : Str) : (escape value).length = value.length + value.count '"' := by
  rw [escape_eq]
  induction value with
  | nil => rfl
  | cons c value ih =>
    rw [List.flatMap_cons, List.length_append, ih, List.count_cons, List.length_cons]
    by_cases hc : c = '"'
    · simp only [hc, if_true, beq_self_eq_true, List.length_cons, List.length_nil]
      omega
    · rw [if_neg hc, if_neg (by simpa using hc), List.length_singleton]
      omega

theorem escape_eq_self_iff : escape value = value ↔ '"' ∉ value := by
  constructor
  · intro h
    have hlen := length_escape value
    rw [h] at hlen
    exact List.count_eq_zero.mp (by omega)
  · intro h
    rw [escape_eq]
    induction value with
    | nil => rfl
    | cons c value ih =>
      rw [List.mem_cons, not_or] at h
      rw [List.flatMap_cons, ih h.2, if_neg (Ne.symm h.1), List.singleton_append]

theorem length_unquote_le (value : Str) : (unquote value).length ≤ value.length := by
  rw [unquote]
  split
  · simp only [List.length_dropLast, List.length_tail]
    omega
  · exact le_rfl

theorem unquote_eq_self_iff (h : '"' ∉ value) :
    unquote value = value ↔ ¬ (wrapped '\'' value = true ∧ 2 ≤ byteLen value) := by
  have hplain : wrapped '"' value = false := by
    rw [wrapped, Bool.and_eq_false_iff]
    refine .inl (decide_eq_false fun hhead => h ?_)
    exact List.mem_of_mem_head? hhead
  rw [unquote, hplain, Bool.false_or]
  constructor
  · rintro heq ⟨hwrapped, hlen⟩
    rw [hwrapped, Bool.true_and, if_pos (decide_eq_true hlen)] at heq
    have hne : value ≠ [] := by
      rintro rfl
      exact absurd hlen (by decide)
    have hpos := List.length_pos_iff.mpr hne
    have hlen' := congrArg List.length heq
    simp only [List.length_dropLast, List.length_tail] at hlen'
    omega
  · intro hnot
    rw [if_neg]
    simpa using hnot

/-- The values that are read as they were written. -/
theorem readBack_eq_self_iff : readBack value = value ↔ '"' ∉ value ∧
    (' ' ∉ value → '#' ∉ value → trim value = value ∧
      ¬ (wrapped '\'' value = true ∧ 2 ≤ byteLen value)) := by
  rw [readBack]
  split
  · rename_i hquotes
    rw [escape_eq_self_iff]
    refine ⟨fun h => ⟨h, fun hblank hcomment => ?_⟩, And.left⟩
    simp [needsQuotes, h, hblank, hcomment] at hquotes
  · rename_i hquotes
    simp only [needsQuotes, Bool.or_eq_true, decide_eq_true_eq, not_or] at hquotes
    obtain ⟨⟨hblank, hcomment⟩, hquote⟩ := hquotes
    simp only [hquote, hblank, hcomment, not_false_eq_true, true_and, true_imp_iff]
    rw [← unquote_eq_self_iff hquote]
    constructor
    · intro h
      have hlen := length_unquote_le (trim value)
      rw [h] at hlen
      have htrim := (trim_isInfix value).eq_of_length
        (le_antisymm (trim_isInfix value).length_le hlen)
      rw [htrim] at h
      exact ⟨htrim, h⟩
    · rintro ⟨htrim, h⟩
      rw [htrim, h]

theorem unquote_subset (value : Str) : unquote value ⊆ value := by
  rw [unquote]
  split
  · exact fun c hc => List.tail_subset _ (List.dropLast_subset _ hc)
  · exact List.Subset.refl _

/-- What is read from a line without line breaks. -/
theorem readLine_some {line : Str} (hline : '\n' ∉ line) (h : readLine (trim line) = some p) :
    Keyed p.1 ∧ '\n' ∉ p.2 := by
  rw [readLine] at h
  split at h
  · cases h
  · rename_i hread
    rw [not_or] at hread
    obtain ⟨q, hcut, h⟩ := Option.bind_eq_some_iff.mp h
    simp only at h
    split at h
    · cases h
    · rename_i hne
      cases h
      obtain ⟨hsplit, hnot⟩ := cut_some hcut
      have hbreak : '\n' ∉ q.1 ++ '=' :: q.2 := by
        rw [← hsplit]
        exact fun hmem => hline ((trim_isInfix line).subset hmem)
      have hkey : trim q.1 ⊆ q.1 := (trim_isInfix q.1).subset
      have hpre : q.1 <+: trim line := ⟨_, hsplit.symm⟩
      have hq : q.1 ≠ [] := by
        intro hnil
        rw [hnil] at hne
        exact hne rfl
      refine ⟨⟨hne, trim_trim _, fun hmem => hnot (hkey hmem), fun hmem => ?_, ?_⟩, fun hmem => ?_⟩
      · exact hbreak (List.mem_append_left _ (hkey hmem))
      · rw [head?_trim_of_isPrefix hpre hq]
        exact hread.2
      · have hvalue := (trim_isInfix _).subset (unquote_subset _ hmem)
        exact hbreak (List.mem_append_right _ (List.mem_cons_of_mem _ hvalue))

/-- What is read from any text. -/
theorem pairs_readable (h : p ∈ pairs content) : Keyed p.1 ∧ '\n' ∉ p.2 := by
  obtain ⟨line, hline, hread⟩ := List.mem_filterMap.mp h
  obtain ⟨line, hmem, rfl⟩ := List.mem_map.mp hline
  exact readLine_some (newline_notMem_linesFrom (by simp) line hmem) hread

theorem lookup_foldl_insert (ps : List (Str × Str)) (key : Str) :
    (ps.foldl (fun (map : Entries) p => map.insert p.1 p.2) ∅)[key]? = insertAll ps key := by
  induction ps using List.reverseRecOn with
  | nil => exact Std.ExtTreeMap.getElem?_empty
  | append_singleton ps p ih =>
    rw [List.foldl_concat, Std.ExtTreeMap.getElem?_insert, ih, insertAll_concat]
    simp only [Std.compare_eq_iff_eq, eq_comm (a := key)]

theorem lookup_readEnvFile (content key : Str) :
    (readEnvFile (some content))[key]? = insertAll (pairs content) key := lookup_foldl_insert _ _

/-- Entries that are written in lines of their own. -/
def Readable (entries : Entries) : Prop :=
  ∀ key value, entries[key]? = some value → Keyed key ∧ '\n' ∉ value

theorem readable_readEnvFile (file : Option Str) : Readable (readEnvFile file) := by
  intro key value h
  cases file with
  | none => cases h.symm.trans Std.ExtTreeMap.getElem?_empty
  | some content =>
    rw [lookup_readEnvFile] at h
    exact pairs_readable (mem_of_insertAll h)

theorem newline_notMem_header : ∀ l ∈ headerLines, '\n' ∉ l := by decide

theorem newline_notMem_escape (h : '\n' ∉ value) : '\n' ∉ escape value := by
  rw [escape_eq, List.mem_flatMap]
  rintro ⟨c, hc, hmem⟩
  split at hmem
  · simp at hmem
  · cases List.mem_singleton.mp hmem
    exact h hc

theorem keyed_of_mem (h : Readable entries) (hp : p ∈ entries.toList) : Keyed p.1 :=
  (h _ _ (Std.ExtTreeMap.mem_toList_iff_getElem?_eq_some.mp hp)).1

/-- A reader that goes through the trimmed lines, and passes over the header. -/
theorem filterMap_writeEnvFile {α : Type} {f : Str → Option α} (h : Readable entries)
    (hheader : (headerLines.map trim).filterMap f = []) :
    ((lines (writeEnvFile entries)).map trim).filterMap f =
      entries.toList.filterMap fun p => f (trim (entryLine p)) := by
  have hbreak : ∀ l ∈ headerLines ++ entries.toList.map entryLine, '\n' ∉ l := by
    intro l hl
    obtain hl | hl := List.mem_append.mp hl
    · exact newline_notMem_header l hl
    · obtain ⟨p, hp, rfl⟩ := List.mem_map.mp hl
      obtain ⟨hkey, hvalue⟩ := h _ _ (Std.ExtTreeMap.mem_toList_iff_getElem?_eq_some.mp hp)
      rw [entryLine]
      split
      · simp [hkey.noBreak, newline_notMem_escape hvalue]
      · simp [hkey.noBreak, hvalue]
  rw [writeEnvFile, map_trim_lines_flatMap hbreak, List.map_append, List.filterMap_append,
    hheader, List.nil_append, List.map_map, List.filterMap_map]
  rfl

theorem pairs_writeEnvFile (h : Readable entries) :
    pairs (writeEnvFile entries) = entries.toList.map fun p => (p.1, readBack p.2) := by
  rw [pairs, filterMap_writeEnvFile h (by decide), ← List.filterMap_eq_map]
  exact List.filterMap_congr fun p hp => readLine_entryLine (keyed_of_mem h hp)

/-- A file that was written is read with every value changed alike. -/
theorem lookup_readEnvFile_writeEnvFile (h : Readable entries) (key : Str) :
    (readEnvFile (some (writeEnvFile entries)))[key]? = entries[key]?.map readBack := by
  rw [lookup_readEnvFile, pairs_writeEnvFile h]
  cases hkey : entries[key]? with
  | none =>
    rw [Option.map_none, insertAll_eq_none_iff]
    intro p hp heq
    obtain ⟨q, hq, rfl⟩ := List.mem_map.mp hp
    have hlookup := Std.ExtTreeMap.mem_toList_iff_getElem?_eq_some.mp hq
    rw [show q.1 = key from heq, hkey] at hlookup
    cases hlookup
  | some value =>
    have hmem := Std.ExtTreeMap.mem_toList_iff_getElem?_eq_some.mpr hkey
    refine insertAll_eq_some ⟨_, List.mem_map_of_mem hmem, rfl⟩ fun p hp heq => ?_
    obtain ⟨q, hq, rfl⟩ := List.mem_map.mp hp
    have hlookup := Std.ExtTreeMap.mem_toList_iff_getElem?_eq_some.mp hq
    rw [show q.1 = key from heq, hkey] at hlookup
    rw [Option.some_inj.mp hlookup]

/-- An entry that is read as it was written. -/
structure Storable (key value : Str) : Prop extends Keyed key where
  valueNoBreak : '\n' ∉ value
  noQuote : '"' ∉ value
  bare : ' ' ∉ value → '#' ∉ value → trim value = value ∧
    ¬ (wrapped '\'' value = true ∧ 2 ≤ byteLen value)

/-- The entries that a file gives back. -/
theorem readEnvFile_writeEnvFile_iff : readEnvFile (some (writeEnvFile entries)) = entries ↔
    ∀ key value, entries[key]? = some value → Storable key value := by
  constructor
  · intro h key value hkey
    have hread := readable_readEnvFile (some (writeEnvFile entries))
    rw [h] at hread
    have hsame := lookup_readEnvFile_writeEnvFile hread key
    rw [h, hkey, Option.map_some, Option.some_inj] at hsame
    obtain ⟨hkeyed, hbreak⟩ := hread key value hkey
    obtain ⟨hquote, hbare⟩ := readBack_eq_self_iff.mp hsame.symm
    exact ⟨hkeyed, hbreak, hquote, hbare⟩
  · intro h
    have hread : Readable entries := fun key value hkey =>
      ⟨(h key value hkey).toKeyed, (h key value hkey).valueNoBreak⟩
    apply Std.ExtTreeMap.ext_getElem?
    intro key
    rw [lookup_readEnvFile_writeEnvFile hread]
    cases hkey : entries[key]? with
    | none => rfl
    | some value =>
      have hstorable := h key value hkey
      rw [Option.map_some, readBack_eq_self_iff.mpr ⟨hstorable.noQuote, hstorable.bare⟩]

end Reading

section Rewriting

variable {w : World} {op : Op} {ops before after : List Op} {key value : Str} {n : Nat}

/-- The step writes the file. -/
def Op.writes : Op → Bool
  | .save .fine _ _ | .remove .fine _ | .remove (.noDir _) _ => true
  | _ => false

/-- The step is about another name, its entry is written in a line of its own, and it does not
leave the file half written. -/
def Op.Spares (key : Str) : Op → Prop
  | .save (.noWrite _ _) _ _ | .remove (.noWrite _ _) _ => False
  | .save _ other value => other ≠ key ∧ Keyed other ∧ '\n' ∉ value
  | .remove _ other => other ≠ key

theorem file_saveEnvKey (w : World) (key value : Str) : (saveEnvKey w .fine key value).1.file =
    some (writeEnvFile ((readEnvFile w.file).insert key value)) := by
  simp only [saveEnvKey, rewrite]
  split <;> rfl

theorem file_removeEnvKey {disk : Disk} (w : World) (key : Str)
    (h : disk = .fine ∨ ∃ error, disk = .noDir error) : (removeEnvKey w disk key).1.file =
      some (writeEnvFile ((readEnvFile w.file).erase key)) := by
  obtain rfl | ⟨error, rfl⟩ := h
  all_goals
    simp only [removeEnvKey, rewrite]
    split <;> rfl

theorem readable_insert {entries : Entries} (h : Readable entries) (hkey : Keyed key)
    (hvalue : '\n' ∉ value) : Readable (entries.insert key value) := by
  intro other found hfound
  rw [Std.ExtTreeMap.getElem?_insert] at hfound
  split at hfound
  · rename_i heq
    rw [Std.compare_eq_iff_eq] at heq
    rw [← heq, ← Option.some_inj.mp hfound]
    exact ⟨hkey, hvalue⟩
  · exact h other found hfound

theorem readable_erase {entries : Entries} (h : Readable entries) (key : Str) :
    Readable (entries.erase key) := by
  intro other found hfound
  rw [Std.ExtTreeMap.getElem?_erase] at hfound
  split at hfound
  · cases hfound
  · exact h other found hfound

/-- A step about another name changes a value as one writing does. -/
theorem lookup_step (h : op.Spares key) : (readEnvFile (step w op).1.file)[key]? =
    (readEnvFile w.file)[key]?.map (readBack^[[op].countP Op.writes]) := by
  have hread := readable_readEnvFile w.file
  have hsame : (readEnvFile w.file)[key]? =
      (readEnvFile w.file)[key]?.map (readBack^[0]) := by
    rw [Function.iterate_zero, Option.map_id, id]
  have hremove (other : Str) (hne : other ≠ key) :
      (readEnvFile (some (writeEnvFile ((readEnvFile w.file).erase other))))[key]? =
        (readEnvFile w.file)[key]?.map (readBack^[1]) := by
    rw [lookup_readEnvFile_writeEnvFile (readable_erase hread other),
      Std.ExtTreeMap.getElem?_erase, if_neg (by simpa [Std.compare_eq_iff_eq] using hne)]
    rfl
  cases op with
  | save disk other value =>
    cases disk with
    | fine =>
      obtain ⟨hne, hkeyed, hvalue⟩ := h
      rw [step, file_saveEnvKey,
        lookup_readEnvFile_writeEnvFile (readable_insert hread hkeyed hvalue),
        Std.ExtTreeMap.getElem?_insert, if_neg (by simpa [Std.compare_eq_iff_eq] using hne)]
      rfl
    | noHome => exact hsame
    | noDir error => exact hsame
    | noWrite error left => exact h.elim
  | remove disk other =>
    cases disk with
    | noHome => exact hsame
    | noWrite error left => exact h.elim
    | fine =>
      rw [step, file_removeEnvKey w other (.inl rfl)]
      exact hremove other h
    | noDir error =>
      rw [step, file_removeEnvKey w other (.inr ⟨error, rfl⟩)]
      exact hremove other h

theorem lookup_run (h : ∀ op ∈ ops, op.Spares key) (w : World) :
    (readEnvFile (run step w ops).1.file)[key]? =
      (readEnvFile w.file)[key]?.map (readBack^[ops.countP Op.writes]) := by
  induction ops generalizing w with
  | nil => rw [run_nil, List.countP_nil, Function.iterate_zero, Option.map_id]; rfl
  | cons op ops ih =>
    obtain ⟨hop, hops⟩ := List.forall_mem_cons.mp h
    rw [run_cons, ih hops, lookup_step hop, Option.map_map, ← Function.iterate_add]
    congr 2
    rw [List.countP_cons, List.countP_cons, List.countP_nil]
    omega

/-- A value wears down with every later writing of the file. -/
theorem lookup_saved (hkey : Keyed key) (hvalue : '\n' ∉ value)
    (hafter : ∀ op ∈ after, op.Spares key) (w : World) :
    (readEnvFile (run step w (before ++ .save .fine key value :: after)).1.file)[key]? =
      some (readBack^[after.countP Op.writes + 1] value) := by
  have hread := readable_insert (readable_readEnvFile (run step w before).1.file) hkey hvalue
  rw [run_append, run_cons]
  simp only
  rw [lookup_run hafter, step, file_saveEnvKey, lookup_readEnvFile_writeEnvFile hread,
    Std.ExtTreeMap.getElem?_insert_self, Option.map_some, Option.map_some,
    ← Function.iterate_succ_apply]

theorem needsQuotes_of_quote (h : '"' ∈ value) : needsQuotes value = true := by
  simp [needsQuotes, h]

/-- Quotes with some backslashes before each. -/
def slashed (n : Nat) (value : Str) : Str :=
  value.flatMap fun c => if c = '"' then List.replicate n '\\' ++ ['"'] else [c]

theorem escape_slashed (n : Nat) (value : Str) :
    escape (slashed n value) = slashed (n + 1) value := by
  rw [escape_eq, slashed, slashed, List.flatMap_assoc]
  congr 1
  funext c
  split
  · rw [List.flatMap_append, List.replicate_succ', List.append_assoc]
    congr 1
    simp [List.flatMap_replicate]
  · rename_i hc
    rw [List.flatMap_singleton, if_neg hc]

theorem iterate_readBack_quote (h : '"' ∈ value) (n : Nat) :
    readBack^[n] value = slashed n value := by
  induction n with
  | zero =>
    have hsame : (fun c : Char => if c = '"' then ['"'] else [c]) = fun c => [c] := by
      funext c
      split
      · rename_i hc
        rw [hc]
      · rfl
    rw [Function.iterate_zero, id, slashed, List.replicate_zero, List.nil_append, hsame,
      List.flatMap_singleton']
  | succ n ih =>
    have hmem : '"' ∈ slashed n value := by
      rw [slashed, List.mem_flatMap]
      exact ⟨'"', h, by simp⟩
    rw [Function.iterate_succ_apply', ih, readBack, if_pos (needsQuotes_of_quote hmem),
      escape_slashed]

/-- Every writing of the file puts one more backslash before the quotes of a saved value. -/
theorem lookup_saved_quote (hkey : Keyed key) (hvalue : '\n' ∉ value) (hquote : '"' ∈ value)
    (hafter : ∀ op ∈ after, op.Spares key) (w : World) :
    (readEnvFile (run step w (before ++ .save .fine key value :: after)).1.file)[key]? =
      some (slashed (after.countP Op.writes + 1) value) := by
  rw [lookup_saved hkey hvalue hafter, iterate_readBack_quote hquote]

theorem lookup_saved_quote_twice :
    (readEnvFile (run step ⟨none, fun _ => none⟩
      ([] ++ .save .fine ['K'] ['"'] :: [.save .fine ['L'] ['x']])).1.file)[['K']]? =
        some ['\\', '\\', '"'] :=
  lookup_saved_quote ⟨by decide, by decide, by decide, by decide, by decide⟩ (by decide) (by decide)
    (fun op hop => by
      cases List.mem_singleton.mp hop
      exact ⟨by decide, ⟨by decide, by decide, by decide, by decide, by decide⟩, by decide⟩) _

end Rewriting

section Loading

variable {env : Env} {ps : List (Str × Str)} {key value : Str}

/-- The value of the first entry for a name. -/
def first (ps : List (Str × Str)) (key : Str) : Option Str :=
  (ps.find? fun p => p.1 = key).map Prod.snd

/-- Some variable that is to be set has a name or a value that the system refuses. -/
def Refused (env : Env) (ps : List (Str × Str)) : Prop :=
  ∃ key value, env key = none ∧ first ps key = some value ∧
    ('\x00' ∈ key ∨ '\x00' ∈ value)

theorem first_cons (p : Str × Str) (ps : List (Str × Str)) (key : Str) :
    first (p :: ps) key = if p.1 = key then some p.2 else first ps key := by
  rw [first, List.find?_cons]
  by_cases h : p.1 = key
  · simp [h]
  · simp [h, first]

theorem refused_cons_of_some {p : Str × Str} (h : env p.1 ≠ none) :
    Refused env (p :: ps) ↔ Refused env ps := by
  refine exists_congr fun key => exists_congr fun value => and_congr_right fun hnone => ?_
  have hne : p.1 ≠ key := by
    rintro rfl
    exact h hnone
  rw [first_cons, if_neg hne]

theorem refused_cons_of_none {p : Str × Str} (h : env p.1 = none) : Refused env (p :: ps) ↔
    ('\x00' ∈ p.1 ∨ '\x00' ∈ p.2) ∨ Refused (Function.update env p.1 (some p.2)) ps := by
  constructor
  · rintro ⟨key, value, hnone, hfirst, hnul⟩
    rw [first_cons] at hfirst
    split at hfirst
    · rename_i heq
      rw [← heq, ← Option.some_inj.mp hfirst] at hnul
      exact .inl hnul
    · rename_i hne
      exact .inr ⟨key, value, by rwa [Function.update_of_ne (Ne.symm hne)], hfirst, hnul⟩
  · rintro (hnul | ⟨key, value, hnone, hfirst, hnul⟩)
    · exact ⟨p.1, p.2, h, by rw [first_cons, if_pos rfl], hnul⟩
    · have hne : p.1 ≠ key := by
        rintro rfl
        rw [Function.update_self] at hnone
        cases hnone
      rw [Function.update_of_ne (Ne.symm hne)] at hnone
      exact ⟨key, value, hnone, by rwa [first_cons, if_neg hne], hnul⟩

theorem or_first_cons_of_some {p : Str × Str} (h : env p.1 ≠ none) (key : Str) :
    (env key).or (first (p :: ps) key) = (env key).or (first ps key) := by
  rw [first_cons]
  split
  · rename_i heq
    obtain ⟨v, hv⟩ := Option.ne_none_iff_exists'.mp h
    rw [← heq, hv]
    rfl
  · rfl

theorem or_first_cons_of_none {p : Str × Str} (h : env p.1 = none) (key : Str) :
    (env key).or (first (p :: ps) key) =
      (Function.update env p.1 (some p.2) key).or (first ps key) := by
  rw [first_cons]
  split
  · rename_i heq
    rw [← heq, Function.update_self, h]
    rfl
  · rename_i hne
    rw [Function.update_of_ne (Ne.symm hne)]

theorem loadPairs_cons_of_some {p : Str × Str} (h : env p.1 ≠ none) :
    loadPairs env (p :: ps) = loadPairs env ps := by
  rw [loadPairs, List.foldlM_cons, if_neg h]
  rfl

/-- Of what the system refuses, only the null character can stand in an entry. -/
theorem loadPairs_cons_of_none {p : Str × Str} (hp : Keyed p.1) (h : env p.1 = none) :
    loadPairs env (p :: ps) = if '\x00' ∈ p.1 ∨ '\x00' ∈ p.2 then none
      else loadPairs (Function.update env p.1 (some p.2)) ps := by
  have hrefuses : (p.1 = [] ∨ '=' ∈ p.1 ∨ '\x00' ∈ p.1 ∨ '\x00' ∈ p.2) ↔
      '\x00' ∈ p.1 ∨ '\x00' ∈ p.2 := (or_iff_right hp.ne).trans (or_iff_right hp.noEq)
  rw [loadPairs, List.foldlM_cons, if_pos h]
  simp only [setVar, hrefuses]
  split
  · rfl
  · rfl

/-- The system's variables come first, then the first entry for a name. -/
theorem loadPairs_eq (env : Env) (h : ∀ p ∈ ps, Keyed p.1) :
    (loadPairs env ps = none ↔ Refused env ps) ∧
      ∀ env', loadPairs env ps = some env' → ∀ key, env' key = (env key).or (first ps key) := by
  induction ps generalizing env with
  | nil =>
    have hload : loadPairs env [] = some env := rfl
    rw [hload]
    refine ⟨⟨fun hnone => Option.some_ne_none _ hnone |>.elim, ?_⟩, ?_⟩
    · rintro ⟨key, value, -, hfirst, -⟩
      cases hfirst
    · rintro env' henv key
      rw [← Option.some_inj.mp henv]
      exact Option.or_none.symm
  | cons p ps ih =>
    obtain ⟨hp, hps⟩ := List.forall_mem_cons.mp h
    by_cases hset : env p.1 = none
    · obtain ⟨hnone, hsome⟩ := ih (Function.update env p.1 (some p.2)) hps
      rw [loadPairs_cons_of_none hp hset, refused_cons_of_none hset]
      split
      · rename_i hnul
        exact ⟨⟨fun _ => .inl hnul, fun _ => rfl⟩, fun env' henv => by cases henv⟩
      · rename_i hnul
        refine ⟨by rw [hnone, or_iff_right hnul], fun env' henv key => ?_⟩
        rw [hsome env' henv, or_first_cons_of_none hset]
    · obtain ⟨hnone, hsome⟩ := ih env hps
      rw [loadPairs_cons_of_some hset, refused_cons_of_some hset]
      refine ⟨hnone, fun env' henv key => ?_⟩
      rw [hsome env' henv, or_first_cons_of_some hset]

/-- What two files say, one after the other. -/
def filePairs (file : Option Str) : List (Str × Str) := file.elim [] pairs

theorem loadDotenv_eq_loadPairs (env : Env) (file secrets : Option Str) :
    loadDotenv env file secrets = loadPairs env (filePairs file ++ filePairs secrets) := by
  have hload (env : Env) (file : Option Str) :
      loadEnvFile env file = loadPairs env (filePairs file) := by
    cases file <;> rfl
  rw [loadDotenv, loadPairs, List.foldlM_append, hload]
  exact congrArg _ (funext fun env' => hload env' secrets)

/-- A variable of the system is kept, and else the first entry of the two files is taken. -/
theorem loadDotenv_eq (env : Env) (file secrets : Option Str) :
    (loadDotenv env file secrets = none ↔
      Refused env (filePairs file ++ filePairs secrets)) ∧
    ∀ env', loadDotenv env file secrets = some env' → ∀ key, env' key =
      (env key).or ((first (filePairs file) key).or (first (filePairs secrets) key)) := by
  have hkeyed : ∀ p ∈ filePairs file ++ filePairs secrets, Keyed p.1 := by
    intro p hp
    obtain hp | hp := List.mem_append.mp hp
    · cases file with
      | none => cases hp
      | some content => exact (pairs_readable hp).1
    · cases secrets with
      | none => cases hp
      | some content => exact (pairs_readable hp).1
  obtain ⟨hnone, hsome⟩ := loadPairs_eq env hkeyed
  rw [loadDotenv_eq_loadPairs]
  refine ⟨hnone, fun env' henv key => ?_⟩
  rw [hsome env' henv, first, List.find?_append, Option.map_or, first, first]

end Loading

end Clawreform.Cli.Dotenv
