import Clawreform.Lib.Text

namespace Clawreform.Runtime

open Clawreform.Lib.Text

section Directives

structure DirectiveSet where
  replyTo : Option Str
  currentThread : Bool
  silent : Bool
  deriving DecidableEq

def DirectiveSet.none : DirectiveSet := ⟨Option.none, false, false⟩

structure StreamingDirectiveAccumulator where
  partialText : Str
  directives : DirectiveSet
  deriving DecidableEq

def maxPartialLen : Nat := 30

def parseTag (directives : DirectiveSet) (content : Str) : DirectiveSet :=
  let trimmed := trim content
  match stripPrefix "reply:".toList trimmed with
  | some id => if trim id = [] then directives else { directives with replyTo := some (trim id) }
  | none =>
    if trimmed = "@current".toList then { directives with currentThread := true }
    else if trimmed = "silent".toList then { directives with silent := true }
    else directives

/-- The content of the directive a text begins with. -/
def tagAt (s : Str) : Option Str :=
  (stripPrefix "[[".toList s).bind (fun t => (find "]]".toList t).map (fun n => t.take n))

/-- Go through the input. A tag of `n` bytes makes the next `n` characters be
skipped, whatever their size. -/
def scan (isFinal : Bool) : Nat → DirectiveSet → Str → Str × StreamingDirectiveAccumulator
  | _, directives, [] => ([], ⟨[], directives⟩)
  | skip + 1, directives, _ :: s => scan isFinal skip directives s
  | 0, directives, c :: s =>
    match tagAt (c :: s) with
    | some content =>
      scan isFinal (2 + byteLen content + 1) (parseTag directives content) s
    | none =>
      if "[[".toList <+: c :: s ∧ isFinal = false ∧ byteLen (c :: s) < maxPartialLen then
        ([], ⟨c :: s, directives⟩)
      else
        let p := scan isFinal 0 directives s
        (c :: p.1, p.2)

def StreamingDirectiveAccumulator.consume (acc : StreamingDirectiveAccumulator) (chunk : Str)
    (isFinal : Bool) : Str × StreamingDirectiveAccumulator :=
  scan isFinal 0 acc.directives (acc.partialText ++ chunk)

def parseDirectives (s : Str) : Str × DirectiveSet :=
  let p := StreamingDirectiveAccumulator.consume ⟨[], .none⟩ s true
  (trim p.1, p.2.directives)

end Directives

section Sanitize

/-- Cut out the blocks between `openTag` and `closeTag`, with `out` the text that
is already through. -/
def stripBlocks (openTag closeTag : Str) : Nat → Str → Str → Str
  | 0, out, remaining => out ++ remaining
  | fuel + 1, out, remaining =>
    match find openTag remaining with
    | none => out ++ remaining
    | some start =>
      let out := out ++ remaining.take start
      let afterOpen := remaining.drop (start + openTag.length)
      match find closeTag afterOpen with
      | none => out ++ remaining.take start
      | some stop =>
        let afterClose := afterOpen.drop (stop + closeTag.length)
        stripBlocks openTag closeTag fuel out
          (if out.getLast? = some '\n' ∧ afterClose.head? = some '\n' then afterClose.tail
            else afterClose)

def stripTaggedBlock (s tag : Str) : Str :=
  stripBlocks ("<".toList ++ tag ++ ">".toList) ("</".toList ++ tag ++ ">".toList) s.length [] s

def collapseLines : Bool → Str → List Str → Str
  | _, out, [] => out
  | previousBlank, out, line :: rest =>
    let isBlank := (trim line).isEmpty
    if isBlank && previousBlank then collapseLines previousBlank out rest
    else
      let out := if out = [] then out else out ++ ['\n']
      collapseLines isBlank (if isBlank then out else out ++ trimEnd line) rest

def collapseBlankLines (s : Str) : Str := trim (collapseLines false [] (lines s))

def sanitizeVisibleResponse (s : Str) : Str :=
  collapseBlankLines (trim (stripTaggedBlock (stripTaggedBlock s "think".toList) "thinking".toList))

end Sanitize

end Clawreform.Runtime
