import Clawreform.Lib.Lowercase

namespace Clawreform.Runtime.WebContent

open Clawreform.Lib.Text Clawreform.Lib.Scan Clawreform.Lib.Lowercase

section Cleaning

variable (u : Unicode)

def removeTurn (html lower openTag closeTag : Str) (pos : Nat) : Except Stop (Str × Nat) := do
  match findByte openTag (← rest pos lower) with
  | some start =>
    let absStart := pos + start
    let before ← part pos absStart html
    match findByte closeTag (← rest absStart lower) with
    | some stop => pure (before, absStart + stop + byteLen closeTag)
    | none =>
      match findByte ['>'] (← rest absStart html) with
      | some gt => pure (before, absStart + gt + 1)
      | none => pure (before, byteLen html)
  | none =>
    let text ← rest pos html
    pure (text, byteLen html)

/-- A turn moves the position on, so there are no more turns than bytes. A `break` is a move to the
end of the text. -/
def removeTagBlocks (html tag : Str) : Except Stop Str :=
  scanLoop (byteLen html) (removeTurn html (toLowercase u html) ('<' :: tag)
    ("</".toList ++ tag ++ ['>'])) (byteLen html + 1) 0

def tagsToRemove : List Str :=
  ["script", "style", "nav", "footer", "iframe", "svg", "form", "noscript", "header"].map
    String.toList

def removeAllTagBlocks : List Str → Str → Except Stop Str
  | [], html => pure html
  | tag :: tags, html => do removeAllTagBlocks tags (← removeTagBlocks u html tag)

def removeComments : Nat → Str → Except Stop Str
  | 0, _ => .error .endless
  | turns + 1, result =>
    match findByte "<!--".toList result, findByte "-->".toList result with
    | some start, some stop =>
      if start < stop then do
        let before ← part 0 start result
        let behind ← rest (stop + 3) result
        removeComments turns (before ++ behind)
      else pure result
    | _, _ => pure result

def removeNonContentBlocks (html : Str) : Except Stop Str := do
  let result ← removeAllTagBlocks u tagsToRemove html
  removeComments (byteLen result + 1) result

def extractFrom (html lower : Str) : List Str → Except Stop Str
  | [] => pure html
  | tag :: tags => do
    match findByte ('<' :: tag) lower with
    | some start =>
      match findByte ['>'] (← rest start html) with
      | some gt =>
        let contentStart := start + gt + 1
        match findByte ("</".toList ++ tag ++ ['>']) (← rest contentStart lower) with
        | some stop => part contentStart (contentStart + stop) html
        | none => extractFrom html lower tags
      | none => extractFrom html lower tags
    | none => extractFrom html lower tags

def extractMainContent (html : Str) : Except Stop Str :=
  extractFrom html (toLowercase u html) (["main", "article", "body"].map String.toList)

end Cleaning

section Converting

variable (u : Unicode)

/-- An element that becomes text between two Markdown markers. -/
structure Rule where
  openPrefix : Str
  close : Str
  mdOpen : Str
  mdClose : Str
  deriving DecidableEq

def Rule.of (openPrefix close mdOpen mdClose : String) : Rule :=
  ⟨openPrefix.toList, close.toList, mdOpen.toList, mdClose.toList⟩

def inlineTurn (html lower : Str) (r : Rule) (pos : Nat) : Except Stop (Str × Nat) := do
  match findByte r.openPrefix (← rest pos lower) with
  | some start =>
    let absStart := pos + start
    let before ← part pos absStart html
    match findByte ['>'] (← rest absStart html) with
    | some gt =>
      let contentStart := absStart + gt + 1
      match findByte r.close (← rest contentStart lower) with
      | some stop =>
        let content ← part contentStart (contentStart + stop) html
        pure (before ++ r.mdOpen ++ content ++ r.mdClose,
          contentStart + stop + byteLen r.close)
      | none => pure (before ++ r.mdOpen, contentStart)
    | none =>
      let bracket ← part absStart (absStart + 1) html
      pure (before ++ bracket, absStart + 1)
  | none =>
    let text ← rest pos html
    pure (text, byteLen html)

def convertInlineTag (html : Str) (r : Rule) : Except Stop Str :=
  scanLoop (byteLen html) (inlineTurn html (toLowercase u html) r) (byteLen html + 1) 0

def convertAll : List Rule → Str → Except Stop Str
  | [], html => pure html
  | r :: rs, html => do convertAll rs (← convertInlineTag u html r)

def stripAllTags (s : Str) : Str := go false s
where
  go : Bool → Str → Str
    | _, [] => []
    | inTag, c :: s =>
      if c = '<' then go true s
      else if c = '>' then go false s
      else if inTag then go inTag s
      else c :: go inTag s

def attributeValue (tag lower pattern : Str) (quote : Char) : Except Stop (Option Str) := do
  match findByte pattern lower with
  | some start =>
    let valStart := start + byteLen pattern
    match findByte [quote] (← rest valStart tag) with
    | some stop =>
      let value ← part valStart (valStart + stop) tag
      pure (some value)
    | none => pure none
  | none => pure none

def extractAttribute (tag attr : Str) : Except Stop (Option Str) := do
  let lower := toLowercase u tag
  match ← attributeValue tag lower (attr ++ "=\"".toList) '"' with
  | some value => pure (some value)
  | none => attributeValue tag lower (attr ++ "='".toList) '\u0027'

def linkTurn (html lower : Str) (pos : Nat) : Except Stop (Str × Nat) := do
  match findByte "<a ".toList (← rest pos lower) with
  | some start =>
    let absStart := pos + start
    let before ← part pos absStart html
    let tagContent ← rest absStart html
    let href ← extractAttribute u tagContent "href".toList
    match findByte ['>'] tagContent with
    | some gt =>
      let textStart := absStart + gt + 1
      match findByte "</a>".toList (← rest textStart lower) with
      | some stop =>
        let content ← part textStart (textStart + stop) html
        let linkText := trim (stripAllTags content)
        let link := match href with
          | some url => ['['] ++ linkText ++ "](".toList ++ url ++ [')']
          | none => linkText
        pure (before ++ link, textStart + stop + 4)
      | none => pure (before, textStart)
    | none =>
      let bracket ← part absStart (absStart + 1) html
      pure (before ++ bracket, absStart + 1)
  | none =>
    let text ← rest pos html
    pure (text, byteLen html)

def convertLinks (html : Str) : Except Stop Str :=
  scanLoop (byteLen html) (linkTurn u html (toLowercase u html)) (byteLen html + 1) 0

def entities : List (Str × Str) :=
  [("&amp;", "&"), ("&lt;", "<"), ("&gt;", ">"), ("&quot;", "\""), ("&#x27;", "'"),
    ("&#39;", "'"), ("&nbsp;", " "), ("&mdash;", "\u2014"), ("&ndash;", "\u2013"),
    ("&hellip;", "\u2026"), ("&copy;", "\u00a9"), ("&reg;", "\u00ae"), ("&trade;", "\u2122")].map
    fun e => (e.1.toList, e.2.toList)

def decodeEntities (s : Str) : Str := entities.foldl (fun s e => replaceText s e.1 e.2) s

/-- The headings, the last level first, and paragraphs. -/
def blockRules : List Rule :=
  [.of "<h6" "</h6>" "\n\n###### " "\n\n", .of "<h5" "</h5>" "\n\n##### " "\n\n",
    .of "<h4" "</h4>" "\n\n#### " "\n\n", .of "<h3" "</h3>" "\n\n### " "\n\n",
    .of "<h2" "</h2>" "\n\n## " "\n\n", .of "<h1" "</h1>" "\n\n# " "\n\n",
    .of "<p" "</p>" "\n\n" "\n\n"]

def replaceBreaks (s : Str) : Str :=
  ["<br>", "<br/>", "<br />"].foldl (fun s br => replaceText s br.toList ['\n']) s

/-- Bold, italic, code, quotes and lists. -/
def textRules : List Rule :=
  [.of "<strong" "</strong>" "**" "**", .of "<b" "</b>" "**" "**", .of "<em" "</em>" "*" "*",
    .of "<i" "</i>" "*" "*", .of "<pre" "</pre>" "\n```\n" "\n```\n",
    .of "<code" "</code>" "`" "`", .of "<blockquote" "</blockquote>" "\n> " "\n",
    .of "<ul" "</ul>" "\n" "\n", .of "<ol" "</ol>" "\n" "\n", .of "<li" "</li>" "- " "\n"]

def boxRules : List Rule :=
  [.of "<div" "</div>" "\n" "\n", .of "<span" "</span>" "" "",
    .of "<section" "</section>" "\n" "\n"]

def convertElements (html : Str) : Except Stop Str := do
  let result ← convertAll u blockRules html
  let result ← convertAll u textRules (replaceBreaks result)
  let result ← convertLinks u result
  let result ← convertAll u boxRules result
  pure (decodeEntities (stripAllTags result))

end Converting

section Fetching

variable (u : Unicode)

def collapseLines : Nat → List Str → Str
  | _, [] => []
  | blanks, line :: ls =>
    if line = [] then (if blanks + 1 ≤ 2 then ['\n'] else []) ++ collapseLines (blanks + 1) ls
    else line ++ '\n' :: collapseLines 0 ls

def collapseWhitespace (s : Str) : Str := trim (collapseLines 0 ((lines s).map trim))

def htmlToMarkdown (html : Str) : Except Stop Str := do
  let cleaned ← removeNonContentBlocks u html
  let content ← extractMainContent u cleaned
  let markdown ← convertElements u content
  pure (collapseWhitespace markdown)

def isHtml (contentType body : Str) : Bool :=
  contains contentType "text/html".toList || contains contentType "application/xhtml".toList ||
    ["<!DOCTYPE", "<!doctype", "<html"].any fun start => start.toList <+: trimStart body

structure WebFetchConfig where
  readability : Bool
  maxChars : Nat

/-- The text that is truncated next. -/
def process (cfg : WebFetchConfig) (contentType body : Str) : Except Stop Str :=
  if cfg.readability && isHtml contentType body then do
    let markdown ← htmlToMarkdown u body
    pure (if trim markdown = [] then body else markdown)
  else pure body

def truncate (maxChars : Nat) (processed : Str) : Except Stop Str :=
  if maxChars < byteLen processed then do
    let kept ← part 0 maxChars processed
    pure (kept ++ "... [truncated, ".toList ++ showNat (byteLen processed) ++
      " total chars]".toList)
  else pure processed

/-- What `fetch` makes of a response before it is wrapped. -/
def processBody (cfg : WebFetchConfig) (contentType body : Str) : Except Stop Str := do
  truncate cfg.maxChars (← process u cfg contentType body)

end Fetching

end Clawreform.Runtime.WebContent
