import Clawreform.Lib.Text
import Mathlib.Logic.Function.Basic

namespace Clawreform.Runtime.ApplyPatch

open Clawreform.Lib.Text

structure Hunk where
  contextBefore : List Str
  oldLines : List Str
  newLines : List Str
  contextAfter : List Str
  deriving DecidableEq

inductive PatchOp where
  | addFile (path content : Str)
  | updateFile (path : Str) (moveTo : Option Str) (hunks : List Hunk)
  | deleteFile (path : Str)
  deriving DecidableEq

structure PatchResult where
  filesAdded : Nat
  filesUpdated : Nat
  filesDeleted : Nat
  filesMoved : Nat
  errors : List Str
  deriving DecidableEq

section Parsing

def isMarker (line : Str) : Bool := "***".toList <+: trim line

def isHeader (line : Str) : Bool := "@@".toList <+: trim line

structure HunkParse where
  hunk : Hunk
  inChange : Bool
  pastChange : Bool
  deriving DecidableEq

def HunkParse.start : HunkParse := ⟨⟨[], [], [], []⟩, false, false⟩

def HunkParse.context (p : HunkParse) (line : Str) : HunkParse :=
  if p.inChange || p.pastChange then
    ⟨{ p.hunk with contextAfter := p.hunk.contextAfter ++ [line] }, false, true⟩
  else { p with hunk.contextBefore := p.hunk.contextBefore ++ [line] }

/-- One line of the body of a hunk. A blank line and a line that is not recognized count as
context. -/
def HunkParse.line (p : HunkParse) (hl : Str) : HunkParse :=
  match stripPrefix ['-'] hl with
  | some stripped => ⟨{ p.hunk with oldLines := p.hunk.oldLines ++ [stripped] }, true, false⟩
  | none =>
    match stripPrefix ['+'] hl with
    | some stripped => ⟨{ p.hunk with newLines := p.hunk.newLines ++ [stripped] }, true, false⟩
    | none =>
      match stripPrefix [' '] hl with
      | some stripped => p.context stripped
      | none => if trim hl = [] then p.context [] else p.context hl

def parseHunk (body : List Str) : Hunk := (body.foldl HunkParse.line .start).hunk

/-- The hunks among lines that are no markers. What stands in front of the first header is
skipped. -/
def parseHunks : List Str → List Hunk
  | [] => []
  | line :: rest =>
    if isHeader line then parseHunk (rest.takeWhile (! isHeader ·)) :: parseHunks rest
    else parseHunks rest

/-- The path an update names, and where the file moves. -/
def updateTarget (rest : Str) : Str × Option Str :=
  match find "->".toList rest with
  | some n => (trim (rest.take n), some (trim (rest.drop (n + 2))))
  | none => (rest, none)

def addContent : List Str → Except Str (List Str)
  | [] => .ok []
  | line :: rest =>
    match stripPrefix ['+'] line with
    | some stripped => (addContent rest).map (stripped :: ·)
    | none =>
      if trim line = [] then addContent rest
      else .error ("Expected '+' prefix in Add File content, got: ".toList ++ line)

/-- The operations of the body of a patch. The first argument counts the lines the last
operation took for itself. -/
def parseOps : Nat → List Str → Except Str (List PatchOp)
  | _, [] => .ok []
  | skip + 1, _ :: rest => parseOps skip rest
  | 0, l :: rest =>
    let line := trim l
    let block := rest.takeWhile (! isMarker ·)
    match stripPrefix "*** Add File:".toList line with
    | some path =>
      if trim path = [] then .error "Empty path in '*** Add File:'".toList
      else
        match addContent block with
        | .error e => .error e
        | .ok content =>
          (parseOps block.length rest).map (.addFile (trim path) (['\n'].intercalate content) :: ·)
    | none =>
      match stripPrefix "*** Update File:".toList line with
      | some path =>
        let (path, moveTo) := updateTarget (trim path)
        if path = [] then .error "Empty path in '*** Update File:'".toList
        else if parseHunks block = [] then
          .error ("Update File '".toList ++ path ++ "' has no hunks".toList)
        else (parseOps block.length rest).map (.updateFile path moveTo (parseHunks block) :: ·)
      | none =>
        match stripPrefix "*** Delete File:".toList line with
        | some path =>
          if trim path = [] then .error "Empty path in '*** Delete File:'".toList
          else (parseOps 0 rest).map (.deleteFile (trim path) :: ·)
        | none =>
          if line = [] then parseOps 0 rest
          else .error ("Unexpected line in patch: ".toList ++ line)

def parsePatch (input : Str) : Except Str (List PatchOp) :=
  let ls := lines input
  match ls.findIdx? fun l => trim l = "*** Begin Patch".toList with
  | none => .error "Missing '*** Begin Patch' marker".toList
  | some first =>
    match ls.reverse.findIdx? fun l => trim l = "*** End Patch".toList with
    | none => .error "Missing '*** End Patch' marker".toList
    | some fromLast =>
      let last := ls.length - 1 - fromLast
      if last ≤ first then
        .error "'*** End Patch' must come after '*** Begin Patch'".toList
      else
        match parseOps 0 ((ls.take last).drop (first + 1)) with
        | .error e => .error e
        | .ok ops => if ops = [] then .error "Patch contains no operations".toList else .ok ops

end Parsing

section Applying

/-- The first place where the anchor matches the lines of the file, up to `key`. -/
def findAnchorBy (key : Str → Str) (fileLines anchor : List Str) : Option Nat :=
  if anchor = [] then some fileLines.length
  else if fileLines.length < anchor.length then none
  else
    (List.range (fileLines.length - anchor.length + 1)).find? fun start =>
      anchor.map key <+: (fileLines.drop start).map key

def findAnchor : List Str → List Str → Option Nat := findAnchorBy id

def findAnchorFuzzy : List Str → List Str → Option Nat := findAnchorBy trimEnd

def applyHunk (fileLines : List Str) (hunk : Hunk) : Option (List Str) :=
  let anchor := hunk.contextBefore ++ hunk.oldLines
  if anchor = [] ∧ hunk.oldLines = [] then some (fileLines ++ hunk.newLines)
  else
    match (findAnchor fileLines anchor).or (findAnchorFuzzy fileLines anchor) with
    | none => none
    | some pos =>
      some (fileLines.take pos ++ (hunk.contextBefore ++ hunk.newLines) ++
        fileLines.drop (pos + (hunk.contextBefore.length + hunk.oldLines.length)))

def applyHunksFrom : Nat → List Str → List Hunk → Except Str (List Str)
  | _, fileLines, [] => .ok fileLines
  | hunkIdx, fileLines, hunk :: hunks =>
    match applyHunk fileLines hunk with
    | none =>
      .error ("Hunk ".toList ++ showNat (hunkIdx + 1) ++
        " failed: could not find context/old lines in file".toList)
    | some fileLines => applyHunksFrom (hunkIdx + 1) fileLines hunks

def applyHunks (content : Str) (hunks : List Hunk) : Except Str Str :=
  (applyHunksFrom 0 (lines content) hunks).map fun fileLines =>
    let result := ['\n'].intercalate fileLines
    if content.getLast? = some '\n' ∧ result.getLast? ≠ some '\n' then result ++ ['\n']
    else result

end Applying

section Files

/-- The contents of the files. -/
abbrev Disk (Path : Type) := Path → Option Str

/-- What the file system and the workspace sandbox answer. -/
structure Host (Path : Type) where
  resolve : Disk Path → Str → Except Str Path
  parent : Path → Option Path
  createError : Path → Option Str
  readError : Path → Str
  writeError : Path → Option Str
  removeError : Path → Option Str

variable {Path : Type} [DecidableEq Path] (host : Host Path)

def PatchResult.failed (result : PatchResult) (action path e : Str) : PatchResult :=
  { result with errors := result.errors ++ [action ++ path ++ ": ".toList ++ e] }

def remove (disk : Disk Path) (path : Path) : Disk Path :=
  if (host.removeError path).isSome then disk else Function.update disk path none

/-- Put the new text of a file where it belongs, and take a moved file away from where it
was. -/
def writeUpdate (path : Str) (moveTo : Option Str) (resolved target : Path) (patched : Str)
    (disk : Disk Path) (result : PatchResult) : Disk Path × PatchResult :=
  match host.writeError target with
  | some e => (disk, result.failed "write ".toList path e)
  | none =>
    let disk := Function.update disk target (some patched)
    (if moveTo.isSome ∧ target ≠ resolved then remove host disk resolved else disk,
      { result with filesUpdated := result.filesUpdated + 1 })

def applyOp (disk : Disk Path) (result : PatchResult) : PatchOp → Disk Path × PatchResult
  | .addFile path content =>
    match host.resolve disk path with
    | .error e => (disk, result.failed [] path e)
    | .ok resolved =>
      match (host.parent resolved).bind host.createError with
      | some e => (disk, result.failed "mkdir ".toList path e)
      | none =>
        match host.writeError resolved with
        | some e => (disk, result.failed "write ".toList path e)
        | none =>
          (Function.update disk resolved (some content),
            { result with filesAdded := result.filesAdded + 1 })
  | .updateFile path moveTo hunks =>
    match host.resolve disk path with
    | .error e => (disk, result.failed [] path e)
    | .ok resolved =>
      match disk resolved with
      | none => (disk, result.failed "read ".toList path (host.readError resolved))
      | some original =>
        match applyHunks original hunks with
        | .error e => (disk, result.failed "patch ".toList path e)
        | .ok patched =>
          match moveTo with
          | none => writeUpdate host path moveTo resolved resolved patched disk result
          | some newPath =>
            match host.resolve disk newPath with
            | .error e => (disk, result.failed [] newPath e)
            | .ok target =>
              writeUpdate host path moveTo resolved target patched disk
                { result with filesMoved := result.filesMoved + 1 }
  | .deleteFile path =>
    match host.resolve disk path with
    | .error e => (disk, result.failed [] path e)
    | .ok resolved =>
      match host.removeError resolved with
      | some e => (disk, result.failed "delete ".toList path e)
      | none =>
        (Function.update disk resolved none,
          { result with filesDeleted := result.filesDeleted + 1 })

def applyPatch (ops : List PatchOp) (disk : Disk Path) : Disk Path × PatchResult :=
  ops.foldl (fun s op => applyOp host s.1 s.2 op) (disk, ⟨0, 0, 0, 0, []⟩)

end Files

end Clawreform.Runtime.ApplyPatch
