import Clawreform.Lib.Slices
import Clawreform.Memory.Session

namespace Clawreform.Kernel.SessionSummary

open Clawreform.Lib.Text Clawreform.Lib.Slices Clawreform.Types Clawreform.Memory

section Code

/-- A path by its components. -/
abbrev Path := List Str

/-- The calls of the file system: the real path of what exists, and the text of a readable file. -/
structure Files where
  canonicalize : Path → Option Path
  readToString : Path → Option Str

/-- The outer `none` is a slice off a character boundary. -/
def readIdentityFile (fs : Files) (workspace : Path) (filename : Str) : Option (Option Str) :=
  match fs.canonicalize (workspace ++ [filename]) with
  | none => some none
  | some canonical =>
    if ∃ root ∈ fs.canonicalize workspace, ¬ root <+: canonical then some none
    else
      match fs.readToString (workspace ++ [filename]) with
      | none => some none
      | some content =>
        if trim content = [] then some none
        else if 32768 < byteLen content then
          (splitBytes 32768 content).map fun cut => some cut.1
        else some (some content)

variable (toLowercase : Str → Str) (isAlphanumeric : Char → Bool) (date now : Str)
  (workspace : Option Path)

/-- The texts of the user among the last ten messages. -/
def topics (messages : List Message) : List Str :=
  ((messages.drop (messages.length - 10)).filter (·.role = .user)).filterMap fun m =>
    match m.content with
    | .text t => some t
    | .blocks _ => none

def slugOf (topic : Str) : Str :=
  ((toLowercase (['-'].intercalate ((splitWhitespace topic).take 6))).filter
    fun c => isAlphanumeric c || c = '-').take 60

/-- A line of the summary. -/
def exchange (topic : Str × Nat) : Option Str :=
  (if 200 < byteLen topic.1 then (splitBytes 200 topic.1).map Prod.fst else some topic.1).map
    fun truncated => showNat (topic.2 + 1) ++ ". ".toList ++ truncated

def sessionSummaryNote (slug summary : Str) : Str × Str :=
  let safeSlug := if slug = [] then "session".toList else slug
  (date ++ ['-'] ++ safeSlug ++ ".md".toList,
    "---\nkind: session_summary\ncreated_at: ".toList ++ now ++
      "\nstatus: accepted\nplatform: clawREFORM by aegntic.ai\noperator: ae.ltd\n".toList ++
      "ecosystem: aegntic.ai\n---\n# Session Summary — ".toList ++
      replaceText safeSlug ['-'] [' '] ++ "\n\n".toList ++ summary ++ "\n".toList)

/-- What is saved: an entry of the structured store, and the files of the workspace. -/
structure Saved where
  key : Str
  summary : Str
  files : List (Path × Str)
  deriving DecidableEq

/-- The outer `none` is a slice off a character boundary. -/
def saveSessionSummary (session : Session) : Option (Option Saved) :=
  match topics session.messages with
  | [] => some none
  | topic :: rest =>
    let slug := slugOf toLowercase isAlphanumeric topic
    (((topic :: rest).take 5).zipIdx.mapM exchange).map fun exchanges =>
      let summary := "Session on ".toList ++ date ++ ": ".toList ++ slug ++
        "\n\nKey exchanges:\n".toList ++ "\n".toList.intercalate exchanges
      let note := sessionSummaryNote date now slug summary
      some
        { key := "session_".toList ++ date ++ ['_'] ++ slug
          summary := summary
          files := workspace.elim [] fun root =>
            [(root ++ ["memory".toList, date ++ ['-'] ++ slug ++ ".md".toList], summary),
              (root ++ ["memory".toList, "summaries".toList, note.1], note.2)] }

inductive ResetError where
  | agentNotFound
  | memory
  deriving DecidableEq

/-- How the registry and the memory answer a reset. -/
structure ResetAnswers where
  registered : Bool
  session : Option Session
  createsSession : Bool
  updatesSessionId : Bool

/-- The outer `none` is a slice off a character boundary. -/
def resetSession (answers : ResetAnswers) : Option (Except ResetError Unit) :=
  let outcome : Except ResetError Unit :=
    if ¬ answers.createsSession then .error .memory
    else if ¬ answers.updatesSessionId then .error .agentNotFound
    else .ok ()
  if ¬ answers.registered then some (.error .agentNotFound)
  else
    match answers.session with
    | some oldSession =>
      if 2 ≤ oldSession.messages.length then
        (saveSessionSummary toLowercase isAlphanumeric date now workspace oldSession).map
          fun _ => outcome
      else some outcome
    | none => some outcome

end Code

section Slicing

variable {α β : Type*} {toLowercase : Str → Str} {isAlphanumeric : Char → Bool} {date now : Str}
  {workspace : Option Path} {fs : Files} {root : Path} {filename : Str} {limit : Nat} {t : Str}

/-- A text that fits, or has a character boundary at the limit. -/
def Sliceable (limit : Nat) (t : Str) : Prop :=
  byteLen t ≤ limit ∨ ∃ a b, t = a ++ b ∧ byteLen a = limit

theorem isSome_mapM_iff {f : α → Option β} {l : List α} :
    (l.mapM f).isSome ↔ ∀ x ∈ l, (f x).isSome := by
  induction l with
  | nil => simp
  | cons x l ih =>
    rw [List.forall_mem_cons, ← ih, List.mapM_cons]
    cases f x with
    | none => simp
    | some y => cases l.mapM f <;> simp

theorem isSome_cut_iff {f : Str × Str → α} {a : α} :
    (if limit < byteLen t then (splitBytes limit t).map f else some a).isSome ↔
      Sliceable limit t := by
  rw [Sliceable, ← isSome_splitBytes_iff]
  split
  · rename_i hlong
    simp [Nat.not_le.mpr hlong]
  · rename_i hshort
    simp [Nat.not_lt.mp hshort]

theorem isSome_exchange_iff {topic : Str × Nat} :
    (exchange topic).isSome ↔ Sliceable 200 topic.1 := by
  rw [exchange, Option.isSome_map, isSome_cut_iff]

theorem isSome_saveSessionSummary_iff {session : Session} :
    (saveSessionSummary toLowercase isAlphanumeric date now workspace session).isSome ↔
      ∀ topic ∈ (topics session.messages).take 5, Sliceable 200 topic := by
  unfold saveSessionSummary
  cases topics session.messages with
  | nil => simp
  | cons topic rest =>
    simp only [Option.isSome_map, isSome_mapM_iff, isSome_exchange_iff]
    constructor
    · intro h t ht
      obtain ⟨i, hi⟩ := List.mem_iff_getElem?.mp ht
      exact h (t, i) (List.mk_mem_zipIdx_iff_getElem?.mpr hi)
    · intro h t ht
      exact h t.1 (List.fst_mem_of_mem_zipIdx ht)

/-- The file is in the workspace and has this text, which is not blank. -/
structure HoldsText (fs : Files) (workspace : Path) (filename content : Str) : Prop where
  found : (fs.canonicalize (workspace ++ [filename])).isSome
  inside : ∀ path root, fs.canonicalize (workspace ++ [filename]) = some path →
    fs.canonicalize workspace = some root → root <+: path
  text : fs.readToString (workspace ++ [filename]) = some content
  notBlank : trim content ≠ []

theorem isSome_readIdentityFile_iff : (readIdentityFile fs root filename).isSome ↔
    ∀ content, HoldsText fs root filename content → Sliceable 32768 content := by
  unfold readIdentityFile
  cases hpath : fs.canonicalize (root ++ [filename]) with
  | none =>
    refine ⟨fun _ content h => ?_, fun _ => rfl⟩
    have hfound := h.found
    simp [hpath] at hfound
  | some path =>
    simp only
    split
    · rename_i hout
      refine ⟨fun _ content h => ?_, fun _ => rfl⟩
      obtain ⟨real, hreal, hnot⟩ := hout
      exact absurd (h.inside path real hpath hreal) hnot
    · rename_i hin
      cases htext : fs.readToString (root ++ [filename]) with
      | none =>
        refine ⟨fun _ content h => ?_, fun _ => rfl⟩
        cases htext.symm.trans h.text
      | some content =>
        simp only
        split
        · rename_i hblank
          refine ⟨fun _ content' h => ?_, fun _ => rfl⟩
          cases htext.symm.trans h.text
          exact absurd hblank h.notBlank
        · rename_i hnotBlank
          rw [isSome_cut_iff]
          constructor
          · intro hcut content' h
            cases htext.symm.trans h.text
            exact hcut
          · intro h
            refine h content ⟨by simp [hpath], ?_, htext, hnotBlank⟩
            intro path' real hpath' hreal
            cases hpath.symm.trans hpath'
            by_contra hnot
            exact hin ⟨real, hreal, hnot⟩

/-- The texts that a reset cuts. -/
def cutTopics (answers : ResetAnswers) : List Str :=
  match answers.session with
  | some session =>
    if answers.registered ∧ 2 ≤ session.messages.length then (topics session.messages).take 5
    else []
  | none => []

theorem isSome_resetSession_iff {answers : ResetAnswers} :
    (resetSession toLowercase isAlphanumeric date now workspace answers).isSome ↔
      ∀ topic ∈ cutTopics answers, Sliceable 200 topic := by
  unfold resetSession cutTopics
  by_cases hregistered : answers.registered
  · cases answers.session with
    | none => simp [hregistered]
    | some session =>
      by_cases hlong : 2 ≤ session.messages.length
      · simp only [hregistered, hlong, not_true_eq_false, ↓reduceIte, and_self, Option.isSome_map]
        exact isSome_saveSessionSummary_iff
      · simp [hregistered, hlong]
  · cases answers.session with
    | none => simp [hregistered]
    | some session => simp [hregistered]

/-- Resets and prompts slice no character exactly when the texts they cut have a boundary at the
limit. -/
theorem total_iff (toLowercase : Str → Str) (isAlphanumeric : Char → Bool) (date now : Str)
    (workspace : Option Path) (session : Session) (answers : ResetAnswers) (fs : Files)
    (root : Path) (filename : Str) :
    ((saveSessionSummary toLowercase isAlphanumeric date now workspace session).isSome ↔
      ∀ topic ∈ (topics session.messages).take 5, Sliceable 200 topic) ∧
    ((resetSession toLowercase isAlphanumeric date now workspace answers).isSome ↔
      ∀ topic ∈ cutTopics answers, Sliceable 200 topic) ∧
    ((readIdentityFile fs root filename).isSome ↔
      ∀ content, HoldsText fs root filename content → Sliceable 32768 content) :=
  ⟨isSome_saveSessionSummary_iff, isSome_resetSession_iff, isSome_readIdentityFile_iff⟩

/-- A message of 201 bytes, whose last character takes two of them. -/
def longMessage : Str := List.replicate 199 'a' ++ ['é']

def longSession : Session :=
  ⟨1, 7, [Message.user longMessage, ⟨.assistant, .text "Yes.".toList⟩], 0, none⟩

theorem resetSession_not_total :
    ¬ ∀ (toLowercase : Str → Str) (isAlphanumeric : Char → Bool) (date now : Str)
      (workspace : Option Path) (answers : ResetAnswers),
      (resetSession toLowercase isAlphanumeric date now workspace answers).isSome := by
  intro h
  have hcut := isSome_resetSession_iff.mp
    (h id Char.isAlphanum "2026-01-01".toList "now".toList none
      ⟨true, some longSession, true, true⟩)
    longMessage (by simp [cutTopics, longSession, topics, Message.user])
  obtain hshort | hboundary := hcut
  · exact absurd hshort (by decide +kernel)
  · rw [← isSome_splitBytes_iff] at hboundary
    exact absurd hboundary (by decide +kernel)

end Slicing

end Clawreform.Kernel.SessionSummary
